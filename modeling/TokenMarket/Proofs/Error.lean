import TokenMarket.Error

/-!
# Steps that can fail

The readers of records and orders are sequences of steps, of which the
first that fails decides.  The lemmas here take such a sequence apart, so
that no later proof has to look into the steps themselves.  `Error.FailsAs` says only of
which sort the failures are.

`FirstOf` says the same without steps: of the faults in a list, the first that
there is.  `Error.bind_eq_error_iff` adds the fault of one step to the faults of
the steps behind it.  Where each element of a list is a step of one kind,
`exists_first_cons` takes the first element off.
-/

namespace TokenMarket

/-- The first of some faults that there is. -/
def FirstOf {α : Type} : List (α → Prop) → α → Prop
  | [], _ => False
  | fault :: faults, e => fault e ∨ (∀ f, ¬ fault f) ∧ FirstOf faults e

namespace FirstOf

variable {α : Type} {faults : List (α → Prop)} {e f : α}

theorem mem (h : FirstOf faults e) : ∃ fault ∈ faults, fault e := by
  induction faults with
  | nil => exact h.elim
  | cons fault faults ih =>
    rcases h with h | ⟨-, h⟩
    · exact ⟨fault, List.mem_cons_self, h⟩
    · obtain ⟨other, hmem, hother⟩ := ih h
      exact ⟨other, List.mem_cons_of_mem _ hmem, hother⟩

theorem unique (hfaults : ∀ fault ∈ faults, ∀ e f, fault e → fault f → e = f)
    (he : FirstOf faults e) (hf : FirstOf faults f) : e = f := by
  induction faults with
  | nil => exact he.elim
  | cons fault faults ih =>
    rcases he with he | ⟨hnone, he⟩
    · rcases hf with hf | ⟨hnone, -⟩
      · exact hfaults fault List.mem_cons_self e f he hf
      · exact absurd he (hnone e)
    · rcases hf with hf | ⟨-, hf⟩
      · exact absurd hf (hnone f)
      · exact ih (fun other hmem => hfaults other (List.mem_cons_of_mem _ hmem)) he hf

end FirstOf

/-- What comes behind good elements is the first element, or it comes behind a good first
element and is found in the rest. -/
theorem exists_first_cons {α : Type} {Good : α → Prop} {first item : α} {rest : List α} {Q : Prop} :
    (∃ front back, first :: rest = front ++ item :: back ∧ (∀ x ∈ front, Good x) ∧ Q)
      ↔ first = item ∧ Q
        ∨ Good first ∧ ∃ front back, rest = front ++ item :: back ∧ (∀ x ∈ front, Good x) ∧ Q := by
  constructor
  · rintro ⟨front, back, hlist, hfront, hitem⟩
    cases front with
    | nil => exact Or.inl ⟨(List.cons.inj hlist).1, hitem⟩
    | cons x front =>
      obtain ⟨rfl, hrest⟩ := List.cons.inj hlist
      obtain ⟨hfirst, hfront⟩ := List.forall_mem_cons.1 hfront
      exact Or.inr ⟨hfirst, front, back, hrest, hfront, hitem⟩
  · rintro (⟨rfl, hitem⟩ | ⟨hfirst, front, back, rfl, hfront, hitem⟩)
    · exact ⟨[], rest, rfl, List.forall_mem_nil _, hitem⟩
    · exact ⟨first :: front, back, rfl, List.forall_mem_cons.2 ⟨hfirst, hfront⟩, hitem⟩

namespace Error

variable {ε α β : Type}

@[simp] theorem ok_bind (a : α) (f : α → Except ε β) : (Except.ok a >>= f) = f a := rfl

@[simp] theorem error_bind (e : ε) (f : α → Except ε β) :
    (Except.error e >>= f) = Except.error e := rfl

/-- A sequence succeeds when every step does. -/
theorem bind_eq_ok_iff {x : Except ε α} {f : α → Except ε β} {b : β} :
    (x >>= f) = .ok b ↔ ∃ a, x = .ok a ∧ f a = .ok b := by
  cases x with
  | ok a => simp
  | error e => simp

/-- If a step fails with a fault of its own, and the steps behind it with the
first of theirs, then the sequence fails with the first of all. -/
theorem bind_eq_error_iff {x : Except ε α} {f : α → Except ε β} {fault : ε → Prop}
    {faults : List (ε → Prop)} (hx : ∀ e, x = .error e ↔ fault e)
    (hf : ∀ a, x = .ok a → ∀ e, f a = .error e ↔ FirstOf faults e) (e : ε) :
    (x >>= f) = .error e ↔ FirstOf (fault :: faults) e := by
  cases x with
  | ok a =>
    have hnone : ∀ e, ¬ fault e := fun e he => by simpa using (hx e).2 he
    rw [ok_bind, hf a rfl e]
    exact ⟨fun h => Or.inr ⟨hnone, h⟩, fun h => (h.resolve_left (hnone e)).2⟩
  | error why =>
    have hwhy : fault why := (hx why).1 rfl
    have herror : (Except.error why : Except ε β) = .error e ↔ fault e := by simpa using hx e
    rw [error_bind, herror]
    exact ⟨Or.inl, fun h => h.resolve_right fun hrest => hrest.1 why hwhy⟩

/-- A check in front of other steps adds its fault to theirs. -/
theorem check_eq_error_iff {p : Prop} [Decidable p] {x : Except ε α} {why e : ε}
    {faults : List (ε → Prop)} (hx : x = .error e ↔ FirstOf faults e) :
    (if p then .error why else x) = .error e ↔ FirstOf ((fun f => p ∧ f = why) :: faults) e := by
  by_cases h : p
  · rw [if_pos h, Except.error.injEq, eq_comm]
    exact ⟨fun heq => Or.inl ⟨h, heq⟩, fun hfirst => hfirst.elim (·.2)
      fun hrest => absurd ⟨h, rfl⟩ (hrest.1 why)⟩
  · rw [if_neg h, hx]
    exact ⟨fun hrest => Or.inr ⟨fun f hf => h hf.1, hrest⟩, fun hfirst => hfirst.elim
      (fun hcheck => absurd hcheck.1 h) (·.2)⟩

/-- No fault is left behind the last step. -/
theorem pure_eq_error_iff (a : α) (e : ε) :
    (pure a : Except ε α) = .error e ↔ FirstOf [] e := by
  simp [FirstOf, pure, Except.pure]

/-- All failures of a step are of one sort. -/
def FailsAs (P : ε → Prop) (x : Except ε α) : Prop :=
  ∀ e, x = .error e → P e

theorem failsAs_ok (P : ε → Prop) (a : α) : FailsAs P (.ok a : Except ε α) := nofun

theorem failsAs_error {P : ε → Prop} {e : ε} (h : P e) :
    FailsAs P (.error e : Except ε α) := by
  intro f hf
  cases hf
  exact h

theorem FailsAs.mono {P Q : ε → Prop} {x : Except ε α} (h : FailsAs P x) (hsort : ∀ e, P e → Q e) :
    FailsAs Q x :=
  fun e he => hsort e (h e he)

/-- A sequence fails as one of its steps. -/
theorem FailsAs.bind {P : ε → Prop} {x : Except ε α} {f : α → Except ε β} (hx : FailsAs P x)
    (hf : ∀ a, FailsAs P (f a)) : FailsAs P (x >>= f) := by
  cases x with
  | ok a => exact hf a
  | error why => exact failsAs_error (hx why rfl)

theorem map_eq_ok_iff {x : Except ε α} {f : α → β} {b : β} :
    x.map f = .ok b ↔ ∃ a, x = .ok a ∧ f a = b := by
  cases x <;> simp [Except.map]

theorem map_eq_error_iff {x : Except ε α} {f : α → β} {e : ε} :
    x.map f = .error e ↔ x = .error e := by
  cases x <;> simp [Except.map]

end Error

end TokenMarket

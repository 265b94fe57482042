import TokenMarket.Hash
import TokenMarket.Proofs.RecordBytes

/-!
# Records read field after field

A `Reader` walks over the bytes of a record.  It knows no positions: each field starts
where the one before it ended, and the reader fails as soon as the bytes do not
suffice for the next field.

`Exact` is the law of a reader.  It takes the bytes of its value, whatever stands
behind them, and nothing else.  The three readers of fields are exact, and
`run_bind_eq_some_iff` carries the law to a sequence of them.
-/

namespace TokenMarket.Bytes

/-- A reader takes its value from the front of the bytes and leaves the rest. -/
abbrev Reader (α : Type) := StateT (List UInt8) Option α

namespace Reader

/-- The next bytes, as many as are asked for. -/
def take (count : Nat) : Reader (List UInt8) := fun bytes =>
  if bytes.length < count then none else some (bytes.take count, bytes.drop count)

/-- The next word, the low byte first. -/
def word : Reader UInt64 := do
  let bytes ← take 8
  return UInt64.ofNat (value bytes)

/-- The next account. -/
def account : Reader AccountHash := do
  let bytes ← take 32
  Hash.ofBytes? .account bytes

/-- The next byte. -/
def byte : Reader UInt8 := do
  let bytes ← take 1
  bytes.head?

/-- The reader takes the layout of its value, and nothing else. -/
def Exact {α : Type} (reader : Reader α) (layout : α → List UInt8) : Prop :=
  ∀ bytes a rest, reader.run bytes = some (a, rest) ↔ bytes = layout a ++ rest

variable {α β : Type} {bytes rest front : List UInt8}

theorem Exact.run_eq_some_iff {reader : Reader α} {layout : α → List UInt8}
    (h : reader.Exact layout) {a : α} :
    reader.run bytes = some (a, rest) ↔ bytes = layout a ++ rest :=
  h bytes a rest

/-! ## Sequences -/

theorem run_pure_eq_some_iff {a b : α} :
    (pure a : Reader α).run bytes = some (b, rest) ↔ a = b ∧ bytes = rest := by
  simp

/-- A value that is there or not takes no bytes. -/
theorem run_liftM_eq_some_iff {x : Option α} {a : α} :
    (liftM x : Reader α).run bytes = some (a, rest) ↔ x = some a ∧ bytes = rest := by
  cases x with
  | none => simp [liftM, monadLift, MonadLift.monadLift]
  | some b => simp [liftM, monadLift, MonadLift.monadLift]

/-- A sequence goes on with the bytes that its first step left. -/
theorem run_bind_eq_some_iff {x : Reader α} {f : α → Reader β} {b : β} :
    (x >>= f).run bytes = some (b, rest)
      ↔ ∃ a left, x.run bytes = some (a, left) ∧ (f a).run left = some (b, rest) := by
  simp [Option.bind_eq_some_iff]

theorem run_take_eq_some_iff {count : Nat} :
    (take count).run bytes = some (front, rest) ↔ front.length = count ∧ bytes = front ++ rest := by
  simp only [StateT.run, take]
  split
  · next hshort =>
    simp only [reduceCtorEq, false_iff]
    intro ⟨hfront, hbytes⟩
    rw [hbytes, List.length_append] at hshort
    omega
  · next hlong =>
    simp only [Option.some.injEq, Prod.mk.injEq]
    constructor
    · intro ⟨hfront, hrest⟩
      have hlength : (bytes.take count).length = count := by
        rw [List.length_take]
        omega
      rw [← hfront, ← hrest, List.take_append_drop]
      exact ⟨hlength, rfl⟩
    · intro ⟨hfront, hbytes⟩
      rw [hbytes, ← hfront]
      exact ⟨List.take_left, List.drop_left⟩

/-! ## Fields -/

theorem exact_word : Exact word ofWord := by
  intro bytes n rest
  simp only [word, run_bind_eq_some_iff, run_take_eq_some_iff, run_pure_eq_some_iff]
  constructor
  · intro ⟨front, left, ⟨hlength, hbytes⟩, hvalue, hrest⟩
    rw [hbytes, ← hrest, ← hvalue, ofWord_ofNat_value hlength]
  · intro hbytes
    exact ⟨ofWord n, rest, ⟨length_ofWord n, hbytes⟩, ofNat_value_ofWord n, rfl⟩

theorem ofBytes?_eq_some_iff {kind : HashKind} {h : Hash kind} :
    Hash.ofBytes? kind bytes = some h ↔ bytes = h.bytes := by
  by_cases hlength : bytes.length = 32
  · rw [Hash.ofBytes?, dif_pos hlength, Option.some.injEq, Hash.mk.injEq]
  · have hne : bytes ≠ h.bytes := fun heq => hlength (heq ▸ h.length_bytes)
    simp [Hash.ofBytes?, hlength, hne]

theorem exact_account : Exact account Hash.bytes := by
  intro bytes h rest
  simp only [account, run_bind_eq_some_iff, run_take_eq_some_iff, run_liftM_eq_some_iff,
    ofBytes?_eq_some_iff]
  constructor
  · intro ⟨front, left, ⟨_, hbytes⟩, hhash, hrest⟩
    rw [hbytes, hhash, hrest]
  · intro hbytes
    exact ⟨h.bytes, rest, ⟨h.length_bytes, hbytes⟩, rfl, rfl⟩

theorem exact_byte : Exact byte fun b => [b] := by
  intro bytes b rest
  simp only [byte, run_bind_eq_some_iff, run_take_eq_some_iff, run_liftM_eq_some_iff]
  constructor
  · intro ⟨front, left, ⟨hlength, hbytes⟩, hhead, hrest⟩
    obtain ⟨c, hfront⟩ := List.length_eq_one_iff.1 hlength
    rw [hfront, List.head?_cons, Option.some.injEq] at hhead
    rw [hbytes, hfront, hhead, hrest]
  · intro hbytes
    exact ⟨[b], rest, ⟨rfl, hbytes⟩, rfl, rfl⟩

end Reader

end TokenMarket.Bytes

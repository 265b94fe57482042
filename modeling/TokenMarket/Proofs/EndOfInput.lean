import TokenMarket.Proofs.Course

/-!
# Input that ends too early

At the end of the input every prompt is answered with the empty text, and the
commands do not notice.  They ask on, and build what was ordered.  This module
proves that nothing is ever built in that way: the last answer of an order is a
number or an account, and the empty text is neither.  So whoever is cut off in
the middle of a command is shown no deploy, and the session ends.

There are three groups.

* The end of the input.  `Dialogue.run_ended` says that a dialogue which reached the
  end of the input has read all of it, comes to a result, and had the empty text for
  its last answer.
* Orders.  `Ordered.last_ne_empty` looks at the last answer of every order that is
  built.
* Sessions.  `Session.command_ended` puts the two together for a command, and
  `Desk.play_cut_short` is about the session that the command is part of.
-/

namespace TokenMarket

/-! ## The end of the input -/

namespace Dialogue

variable {σ α : Type} {w : World (StateM σ)}

/-- A dialogue without any lines still comes to a result, and all of its answers are
empty. -/
theorem run_nil (d : Dialogue α) (t : σ) :
    ((d.run w []).run t).1.rest = [] ∧ (∃ a, ((d.run w []).run t).1.result = some a)
      ∧ ∀ answer ∈ answers (d.minutes w [] t), answer.2 = "" := by
  induction d generalizing t with
  | done a => exact ⟨rfl, ⟨a, rfl⟩, fun _ h => absurd h List.not_mem_nil⟩
  | say e next ih => exact ih t
  | ask prompt next ih =>
    obtain ⟨hrest, hresult, hanswers⟩ := ih none t
    exact ⟨hrest, hresult, List.forall_mem_cons.2 ⟨rfl, hanswers⟩⟩
  | file path next ih => exact ih _ t
  | read q next ih => exact ih _ _

/-- Where a prompt reached the end of the input, nothing is left, there is a result, and
the last answer is empty. -/
theorem run_ended {d : Dialogue α} {input : List InputLine} {t : σ} {prompt : String}
    (h : .asked prompt none ∈ d.minutes w input t) :
    ((d.run w input).run t).1.rest = [] ∧ (∃ a, ((d.run w input).run t).1.result = some a)
      ∧ ∃ last, (answers (d.minutes w input t)).getLast? = some (last, "") := by
  induction d generalizing input t with
  | done a => exact absurd h List.not_mem_nil
  | say e next ih => exact ih ((List.mem_cons.1 h).resolve_left Remark.noConfusion)
  | ask p next ih =>
    match input with
    | [] =>
      obtain ⟨hrest, hresult, hanswers⟩ := run_nil (w := w) (ask p next) t
      refine ⟨hrest, hresult, ?_⟩
      have hne : answers ((ask p next).minutes w [] t) ≠ [] := List.cons_ne_nil _ _
      obtain ⟨last, hlast⟩ := Option.ne_none_iff_exists'.1 (mt List.getLast?_eq_none_iff.1 hne)
      have hempty := hanswers last (List.mem_of_getLast? hlast)
      exact ⟨last.1, by rw [hlast, ← hempty]⟩
    | some line :: rest =>
      have hmem : .asked prompt none ∈ (next (some line)).minutes w rest t := by
        simpa [minutes] using h
      obtain ⟨hrest, hresult, last, hlast⟩ := ih (some line) hmem
      refine ⟨hrest, hresult, last, ?_⟩
      change ((p, line) :: answers ((next (some line)).minutes w rest t)).getLast? = _
      rw [List.getLast?_cons, hlast]
      rfl
    | none :: rest => simp [minutes] at h
  | file path next ih => exact ih _ h
  | read q next ih => exact ih _ h

end Dialogue

/-! ## Orders -/

theorem Number.not_denotes_empty (n : Nat) : ¬ Number.Denotes "" n := fun h => h.1 rfl

theorem Hash.not_denotes_empty {kind : HashKind} (h : Hash kind) : ¬ Hash.Denotes "" h := by
  intro ⟨digits, hbare, hhex⟩
  have hlength : digits.length = 64 := (Hash.exists_hex_iff.1 ⟨h, hhex⟩).1
  have hempty : digits = [] := by
    rcases hbare with hbare | hbare
    · exact hbare.symm
    · exact (List.append_eq_nil_iff.1 hbare.symm).2
  rw [hempty] at hlength
  cases hlength

/-- What an order is built from does not end with an empty answer. -/
theorem Ordered.last_ne_empty {identities : Registry} {files : String → Except FileError String}
    {entry : MenuEntry} {pairs : List (String × String)} {order : Order}
    {contract : ContractHash} {args : List Argument}
    (h : Ordered identities files entry pairs order)
    (hmeans : order.Denotes contract args) (prompt : String) :
    pairs.getLast? ≠ some (prompt, "") := by
  intro hlast
  cases h with
  | install => cases hlast
  | mint =>
    cases hmeans with
    | mint _ hprice _ =>
      cases hlast
      exact Number.not_denotes_empty _ hprice
  | publish =>
    cases hmeans with
    | publish hproducer _ _ _ _ =>
      cases hlast
      exact Hash.not_denotes_empty _ hproducer
  | approve =>
    cases hmeans with
    | approve hrequest =>
      cases hlast
      exact Number.not_denotes_empty _ hrequest
  | buy =>
    cases hmeans with
    | buy _ _ hprice _ =>
      cases hlast
      exact Number.not_denotes_empty _ hprice
  | cancel =>
    cases hmeans with
    | cancel hrequest =>
      cases hlast
      exact Number.not_denotes_empty _ hrequest
  | disapprove =>
    cases hmeans with
    | disapprove _ _ hpublisher =>
      cases hlast
      exact Hash.not_denotes_empty _ hpublisher

/-! ## Sessions -/

section Sessions

variable {σ : Type} {c : Config} {w : Dialogue.World (StateM σ)} {entry : MenuEntry}
  {lines : List InputLine} {prompt : String}

theorem Session.not_isBlock_opening : ∀ e ∈ opening, ¬ e.IsBlock :=
  List.forall_mem_cons.2 ⟨Event.not_isBlock_menu, List.forall_mem_singleton.2
    (Event.plain_prompt (by decide)).not_isBlock⟩

theorem Command.not_isBlock_report {result : Option (Except Problem Unit)} :
    ∀ e ∈ report result, ¬ e.IsBlock := by
  match result with
  | none | some (.ok ()) => exact fun _ he => absurd he List.not_mem_nil
  | some (.error p) => exact List.forall_mem_singleton.2 (Event.not_isBlock_failure p)

/-- A command that reached the end of the input comes to an end without a block. -/
theorem Session.command_ended {s : Session} (hs : s = ⟨Terms.ofConfig c, c.identities, s.user⟩)
    {t : σ} (h : .asked prompt none ∈ (s.command entry).run.minutes w lines t) :
    ∃ events result u, ((s.command entry).run.run w lines).run t
        = (⟨events, [], some result⟩, u)
      ∧ ∀ e ∈ events, ¬ e.IsBlock := by
  obtain ⟨hrest, ⟨result, hresult⟩, last, hlast⟩ := Dialogue.run_ended h
  have hways := s.command_concludes w.file entry
  obtain ⟨hevents, -, hconclusion⟩ := Dialogue.run_minutes hways lines t
  generalize (s.command entry).run.minutes w lines t = minutes at *
  generalize ((s.command entry).run.run w lines).run t = out at *
  obtain ⟨⟨events, rest, _⟩, u⟩ := out
  obtain rfl : rest = [] := hrest
  obtain rfl : _ = some result := hresult
  refine ⟨events, result, u, rfl, ?_⟩
  obtain rfl : events = minutes.map Remark.event := hevents
  intro e he
  obtain ⟨r, hr, rfl⟩ := List.mem_map.1 he
  cases hconclusion with
  | plain hplain => exact (hplain r hr).not_isBlock
  | @signed asked d hasked hgood =>
    -- The deploy would be built from answers of which the last is empty.
    obtain ⟨order, hordered, hbuilt⟩ := hgood
    rw [hs] at hbuilt
    obtain ⟨args, hmeans, -⟩ := Terms.build_eq_ok_iff.1 hbuilt
    have hanswers : answers (asked ++ [.said (.deploy d)]) = answers asked := by
      simp [answers, Remark.answer?]
    rw [hanswers] at hlast
    exact absurd hlast (hordered.last_ne_empty hmeans last)

/-- Nothing is signed by somebody who did not finish.

If the input ends while a command is asking, then the command shows no block,
whatever was answered before, and neither does the rest of the session, which is
one more menu. -/
theorem Desk.play_cut_short {given : Option String} {input : List InputLine} {start : σ}
    (p : Point c w given input start) {line : String} (hrest : p.rest = some line :: lines)
    (hentry : MenuEntry.ofChoice? (Text.trim line) = some entry)
    (hended : .asked prompt none ∈ (p.session.command entry).run.minutes w lines p.state) :
    ∃ shown u, (p.session.turn.run w p.rest).run p.state = (⟨shown, [], some .again⟩, u)
      ∧ (∀ e ∈ shown, ¬ e.IsBlock)
      ∧ ((Desk.ofConfig c).play w given input).run start
        = (⟨p.shown ++ (shown ++ Session.opening), .finished⟩, u) := by
  have hexit : entry ≠ .exit := by
    intro h
    subst h
    cases hended
  obtain ⟨events, result, u, hrun, hevents⟩ :=
    Session.command_ended (login_session p.login) hended
  have hturn := Session.turn_command hentry hexit hrun
  rw [← hrest] at hturn
  refine ⟨_, u, hturn, ?_, ?_⟩
  · intro e he
    rcases List.mem_append.1 he with he | he
    · exact Session.not_isBlock_opening e he
    rcases List.mem_append.1 he with he | he
    · exact hevents e he
    · exact Command.not_isBlock_report e he
  · have hover := Session.play_over (Session.turn_nil (w := w) p.session u) rfl
    rw [p.play_eq, Session.play_again hturn rfl]
    simp only [hover]

end Sessions

/-- The first identity chose to buy, gave an amount, and was cut off. -/
def buyingShort : Desk.Point {} bareWorld (some "1") [some "9", some "3"] {} :=
  .behindLogin select_demo _ _ _

/-- The id and the price were asked for in vain. -/
theorem Desk.play_cut_short_buying :
    MenuEntry.ofChoice? (Text.trim "9") = some .buy
      ∧ .asked "Enter the approved_id : " none
        ∈ (buyingShort.session.command .buy).run.minutes bareWorld [some "3"] buyingShort.state
      ∧ ∃ shown u,
        (buyingShort.session.turn.run bareWorld buyingShort.rest).run buyingShort.state
            = (⟨shown, [], some .again⟩, u)
          ∧ (∀ e ∈ shown, ¬ e.IsBlock)
          ∧ ((Desk.ofConfig {}).play bareWorld (some "1") [some "9", some "3"]).run {}
            = (⟨buyingShort.shown ++ (shown ++ Session.opening), .finished⟩, u) := by
  have hentry : MenuEntry.ofChoice? (Text.trim "9") = some .buy := by decide
  have hended : .asked "Enter the approved_id : " none
      ∈ (buyingShort.session.command .buy).run.minutes bareWorld [some "3"]
        buyingShort.state := by
    have hminutes : ∃ more, (buyingShort.session.command .buy).run.minutes bareWorld [some "3"]
        buyingShort.state = .asked "Enter the amount : " (some "3")
          :: .asked "Enter the approved_id : " none :: more := ⟨_, rfl⟩
    obtain ⟨more, hmore⟩ := hminutes
    rw [hmore]
    exact List.mem_cons_of_mem _ List.mem_cons_self
  exact ⟨hentry, hended, Desk.play_cut_short buyingShort rfl hentry hended⟩

end TokenMarket

import TokenMarket.Proofs.PlacedOrders

/-!
# Only what was built is shown for signing

A session shows commands for a person to copy, sign and send.  Whoever
copies one trusts that it is the deploy of the order that was typed, for the
identity that is logged in.  This module proves that nothing else is ever
shown in that place: whatever is typed, whatever the files hold, and
whatever the reader answers.

There are three groups.

* Turns.  `Signed` is what the minutes of a turn with a block are, and
  `Turn` lists the forms that the minutes of a turn can have.  `always_turn`
  puts the choice in front of what `Session.command_concludes` says.
* The login.  `Login` lists the forms that the minutes of a login can have,
  with the identity that it selects.
* The session.  `Desk.play_always` puts a login and turns together, by the
  induction of `Session.play_turns`, and `Desk.play_minutes` says which turns
  they are.  `Desk.play_signed` reads off what that means for the blocks.

A block is an event of its own.  A text from outside, such as a complaint of
the node, stands behind the name of its cause in an event that is no block,
and may have any lines.
-/

namespace TokenMarket

/-! ## Turns -/

/-- The minutes of a turn that ends with a deploy to be signed: the choice of
an entry, its prompts with their answers, and the deploy that was built for
the order that they make. -/
inductive Signed (c : Config) (files : String → Except FileError String) (user : Identity) :
    List Remark → Deploy → Prop
  | intro {line : String} {entry : MenuEntry} {asked : List Remark} {order : Order} {d : Deploy}
      (hasked : Plain asked) (hentry : MenuEntry.ofChoice? (Text.trim line) = some entry)
      (horder : Ordered c.identities files entry (answers asked) order)
      (hbuilt : (Terms.ofConfig c).build user.secretKey order = .ok d)
      (hcarries : d.Carries c user.secretKey order) :
      Signed c files user (.said .menu :: .asked "Enter your choice : " (some line) :: asked
        ++ [.said (.deploy d)]) d

/-- The minutes of a turn.  Behind the menu there is no block, or the turn
ends with a failure and there is none, or it ends with a deploy. -/
inductive Turn (c : Config) (files : String → Except FileError String) (user : Identity) :
    List Remark → Prop
  | plain {body : List Remark} (h : Plain body) : Turn c files user (.said .menu :: body)
  | failed {body : List Remark} {p : Problem} (h : Plain body) :
      Turn c files user (.said .menu :: body ++ [.said (.failure p)])
  | signed {turn : List Remark} {d : Deploy} (h : Signed c files user turn d) :
      Turn c files user turn

section Turns

variable {c : Config} {files : String → Except FileError String} {user : Identity}

/-- What follows on a choice. -/
theorem always_perform (line : String) :
    Dialogue.Always files
      ((⟨Terms.ofConfig c, c.identities, user⟩ : Session).perform (Text.trim line))
      fun body _ => Turn c files user
        (.said .menu :: .asked "Enter your choice : " (some line) :: body) := by
  have hchoice : (Remark.asked "Enter your choice : " (some line)).event.Plain :=
    Event.plain_prompt (by decide)
  unfold Session.perform
  split
  · exact Turn.plain (.cons hchoice (.cons (Event.plain_unknownChoice _) .nil))
  · exact Turn.plain (.cons hchoice .nil)
  next entry _ hentry =>
    refine Dialogue.always_bind (Dialogue.Always.mono
      (Session.command_concludes ⟨Terms.ofConfig c, c.identities, user⟩ files _) ?_)
    rintro minutes result hconclusion
    cases hconclusion with
    | plain h =>
      match result with
      | none => exact Turn.plain (.cons hchoice h)
      | some (.ok ()) =>
        change Turn c files user (_ :: _ :: (minutes ++ []))
        rw [List.append_nil]
        exact .plain (h.cons hchoice)
      | some (.error p) => exact Turn.failed (h.cons hchoice)
    | signed hasked hgood =>
      obtain ⟨order, horder, hbuilt⟩ := hgood
      change Turn c files user (_ :: _ :: ((_ ++ _) ++ []))
      rw [List.append_nil]
      exact .signed (.intro hasked hentry horder hbuilt (Terms.build_carries hbuilt))

theorem always_turn :
    Dialogue.Always files (⟨Terms.ofConfig c, c.identities, user⟩ : Session).turn
      fun turn _ => Turn c files user turn := by
  refine ⟨.plain (.cons (Event.plain_prompt (by decide)) .nil), fun line => ?_⟩
  cases line with
  | none => exact Turn.plain (.cons (Event.plain_prompt (by decide)) .nil)
  | some line => exact always_perform line

/-- Besides its last event a turn has no block. -/
theorem Turn.cases_last {turn : List Remark} (h : Turn c files user turn) :
    (∀ r ∈ turn, ¬ r.event.IsBlock)
      ∨ ∃ before d, turn = before ++ [.said (.deploy d)] ∧ Signed c files user turn d
        ∧ ∀ r ∈ before, ¬ r.event.IsBlock ∧ ∀ p, r.event ≠ .failure p := by
  have hmenu : ∀ {body : List Remark}, Plain body →
      ∀ r ∈ Remark.said .menu :: body, ¬ r.event.IsBlock ∧ ∀ p, r.event ≠ .failure p := by
    intro body hbody r hr
    rcases List.mem_cons.1 hr with rfl | hr
    · exact ⟨Event.not_isBlock_menu, by simp [Remark.event]⟩
    · exact ⟨(hbody r hr).not_isBlock, (hbody r hr).ne_failure⟩
  cases h with
  | plain hbody => exact Or.inl fun r hr => (hmenu hbody r hr).1
  | failed hbody =>
    left
    intro r hr
    rcases List.mem_append.1 hr with hr | hr
    · exact (hmenu hbody r hr).1
    · rw [List.mem_singleton.1 hr]
      exact Event.not_isBlock_failure _
  | signed h =>
    right
    obtain ⟨hasked, hentry, horder, hbuilt, hcarries⟩ := h
    exact ⟨_, _, rfl, .intro hasked hentry horder hbuilt hcarries,
      hmenu (.cons (Event.plain_prompt (by decide)) hasked)⟩

/-- A block is the deploy that the turn was about. -/
theorem Turn.signed_of_isBlock {turn : List Remark} (h : Turn c files user turn) {r : Remark}
    (hr : r ∈ turn) (hblock : r.event.IsBlock) :
    ∃ d, r.event = .deploy d ∧ Signed c files user turn d := by
  rcases h.cases_last with hnone | ⟨before, d, rfl, hsigned, hbefore⟩
  · exact absurd hblock (hnone r hr)
  rcases List.mem_append.1 hr with hr | hr
  · exact absurd hblock (hbefore r hr).1
  · rw [List.mem_singleton.1 hr]
    exact ⟨d, rfl, hsigned⟩

/-- Where a failure is reported there is no block. -/
theorem Turn.not_isBlock_of_failure {turn : List Remark} (h : Turn c files user turn) {p : Problem}
    (hp : .said (.failure p) ∈ turn) : ∀ r ∈ turn, ¬ r.event.IsBlock := by
  rcases h.cases_last with hnone | ⟨before, d, rfl, _, hbefore⟩
  · exact hnone
  rcases List.mem_append.1 hp with hp | hp
  · exact absurd rfl ((hbefore _ hp).2 p)
  · exact absurd (List.mem_singleton.1 hp) (by simp)

end Turns

/-! ## The login -/

/-- What is asked at a login, and the text that picks an identity.  Nothing
is asked if the text is given. -/
inductive Picked (identities : Registry) : Option String → List Remark → String → Prop
  | given {text : String} : Picked identities (some text) [] text
  | asked {line : Option String} :
      Picked identities none [.asked (Session.slotPrompt "Login using user" identities) line]
        (line.getD "")

/-- The minutes of a login, and the identity that it selects. -/
inductive Login (identities : Registry) (given : Option String) :
    List Remark → Option Identity → Prop
  | unread (h : given = none) :
      Login identities given [.unread (Session.slotPrompt "Login using user" identities)] none
  | refused {asked : List Remark} {text : String} {e : Error} (h : Picked identities given asked text)
      (hselect : identities.select text = .error e) :
      Login identities given (asked ++ [.said (.failure (.marketplace e))]) none
  | welcome {asked : List Remark} {text : String} {user : Identity}
      (h : Picked identities given asked text) (hselect : identities.select text = .ok user) :
      Login identities given (asked ++ [.said (.welcome user.name)]) (some user)

section Login

variable {identities : Registry} {given : Option String}

theorem plain_slot : (Event.prompt (Session.slotPrompt "Login using user" identities)).Plain :=
  Event.plain_prompt (Event.ne_heading (by simp [Session.slotPrompt]))

/-- What a login shows: the prompt, and behind it a failure or the name of an identity. -/
theorem Login.forall_event {minutes : List Remark} {selected : Option Identity} {E : Event → Prop}
    (h : Login identities given minutes selected)
    (hprompt : E (.prompt (Session.slotPrompt "Login using user" identities)))
    (hfailure : ∀ p, E (.failure p))
    (hwelcome : ∀ user slot, identities.select slot = .ok user → E (.welcome user.name)) :
    ∀ r ∈ minutes, E r.event := by
  have hbehind : ∀ {asked : List Remark} {text : String} {e : Event},
      Picked identities given asked text → E e → ∀ r ∈ asked ++ [.said e], E r.event := by
    intro asked text e hpicked he r hr
    rcases List.mem_append.1 hr with hr | hr
    · cases hpicked with
      | given => exact absurd hr List.not_mem_nil
      | asked =>
        rw [List.mem_singleton.1 hr]
        exact hprompt
    · rwa [List.mem_singleton.1 hr]
  cases h with
  | unread _ =>
    intro r hr
    rw [List.mem_singleton.1 hr]
    exact hprompt
  | refused hpicked _ => exact hbehind hpicked (hfailure _)
  | welcome hpicked hselect => exact hbehind hpicked (hwelcome _ _ hselect)

theorem Login.not_isBlock {minutes : List Remark} {selected : Option Identity}
    (h : Login identities given minutes selected) : ∀ r ∈ minutes, ¬ r.event.IsBlock :=
  h.forall_event (E := fun e => ¬ e.IsBlock) plain_slot.not_isBlock Event.not_isBlock_failure
    fun user _ _ => (Event.plain_welcome user.name).not_isBlock

/-- Who is logged in was picked from the list. -/
theorem Login.exists_slot {minutes : List Remark} {user : Identity}
    (h : Login identities given minutes (some user)) :
    ∃ slot, identities.select slot = .ok user := by
  cases h with
  | welcome _ hselect => exact ⟨_, hselect⟩

theorem always_slot (c : Config) (files : String → Except FileError String)
    (given : Option String) :
    Dialogue.Always files ((Desk.ofConfig c).slot given) fun asked text => match text with
      | some text => Picked c.identities given asked text
      | none => given = none
        ∧ asked = [.unread (Session.slotPrompt "Login using user" c.identities)] := by
  cases given with
  | some text => exact .given
  | none => exact ⟨⟨rfl, rfl⟩, fun line => .asked⟩

/-- A login ends in a session of the identity that is selected, or in none. -/
theorem always_login (c : Config) (files : String → Except FileError String)
    (given : Option String) :
    Dialogue.Always files ((Desk.ofConfig c).login given) fun minutes result =>
      ∃ selected, Login c.identities given minutes selected
        ∧ result.join = selected.map fun user => ⟨Terms.ofConfig c, c.identities, user⟩ := by
  refine Dialogue.always_bind ((always_slot c files given).mono ?_)
  intro asked text hpicked
  match text with
  | none =>
    obtain ⟨rfl, rfl⟩ := hpicked
    exact ⟨none, .unread rfl, rfl⟩
  | some text =>
    cases hresult : c.identities.select text with
    | error e =>
      simp only [Desk.ofConfig, hresult]
      exact ⟨none, .refused hpicked hresult, rfl⟩
    | ok user =>
      simp only [Desk.ofConfig, hresult]
      exact ⟨some user, .welcome hpicked hresult, rfl⟩

end Login

/-! ## The session -/

/-- The minutes of a session are those of a login and of turns of the
identity that it selects.  What always holds of a turn of that identity holds
of each of them. -/
theorem Desk.play_always {σ : Type} {c : Config} {w : Dialogue.World (StateM σ)}
    {P : Identity → List Remark → Option Flow → Prop}
    (h : ∀ user slot, c.identities.select slot = .ok user →
      Dialogue.Always w.file (⟨Terms.ofConfig c, c.identities, user⟩ : Session).turn (P user))
    (given : Option String) (input : List InputLine) (t : σ) :
    ∃ (login : List Remark) (selected : Option Identity) (turns : List (List Remark))
      (rest : List InputLine),
      (((Desk.ofConfig c).play w given input).run t).1.events
          = (login ++ turns.flatten).map Remark.event
        ∧ Heard (login ++ turns.flatten) input rest
        ∧ Login c.identities given login selected
        ∧ ∀ turn ∈ turns, ∃ user flow, selected = some user ∧ P user turn flow := by
  have hways := always_login c w.file given
  obtain ⟨login, hevents, hheard, selected, hlogin, hsession⟩ := Dialogue.run_always hways input t
  have hstep : ∀ f : Dialogue.Run (Option Session) → StateM σ Transcript,
      ((((Desk.ofConfig c).login given).run w input >>= f).run t)
        = (f ((((Desk.ofConfig c).login given).run w input).run t).1).run
          ((((Desk.ofConfig c).login given).run w input).run t).2 := fun _ => rfl
  rw [Desk.play, hstep]
  generalize (((Desk.ofConfig c).login given).run w input).run t = out at *
  obtain ⟨⟨events, rest, result⟩, u⟩ := out
  -- The turns go on where the login stopped, and without an identity there are none.
  cases selected with
  | none =>
    refine ⟨login, none, [], rest, ?_, ?_, hlogin, fun _ hturn => absurd hturn List.not_mem_nil⟩
    · rw [List.flatten_nil, List.append_nil]
      match result, hsession with
      | none, _ => exact hevents
      | some none, _ => exact hevents
    · simpa using hheard
  | some user =>
    obtain rfl : result = some (some ⟨Terms.ofConfig c, c.identities, user⟩) := by
      simpa [Option.join_eq_some_iff] using hsession
    obtain ⟨slot, hslot⟩ := hlogin.exists_slot
    have hways' := h user slot hslot
    obtain ⟨turns, rest', hevents', hheard', hturns⟩ := Session.play_turns hways' rest u
    refine ⟨login, some user, turns, rest', ?_, hheard.append hheard', hlogin, ?_⟩
    · rw [List.map_append, ← hevents, ← hevents']
      rfl
    · intro turn hturn
      obtain ⟨flow, hP⟩ := hturns turn hturn
      exact ⟨user, flow, rfl, hP⟩

theorem Desk.play_minutes {σ : Type} (c : Config) (w : Dialogue.World (StateM σ))
    (given : Option String) (input : List InputLine) (t : σ) :
    ∃ (login : List Remark) (selected : Option Identity) (turns : List (List Remark))
      (rest : List InputLine),
      (((Desk.ofConfig c).play w given input).run t).1.events
          = (login ++ turns.flatten).map Remark.event
        ∧ Heard (login ++ turns.flatten) input rest
        ∧ Login c.identities given login selected
        ∧ ∀ turn ∈ turns, ∃ user, selected = some user ∧ Turn c w.file user turn := by
  obtain ⟨login, selected, turns, rest, hevents, hheard, hlogin, hturns⟩ :=
    Desk.play_always (c := c) (fun user _ _ => always_turn) given input t
  refine ⟨login, selected, turns, rest, hevents, hheard, hlogin, fun turn hturn => ?_⟩
  obtain ⟨user, _, hselected, hform⟩ := hturns turn hturn
  exact ⟨user, hselected, hform⟩

/-- Nothing is shown for signing but what was built for the user.

The minutes of a session are a login and turns.  Its events are those of the
minutes, and the answers in the minutes are the lines of the input.  The
blocks of the session are the deploys that end a turn of the identity which
the login selected.  Each was built for the answers to the prompts of its
turn, and is shown as the heading and, behind a tab, the command of the
deploy.  A turn with a failure has no block. -/
theorem Desk.play_signed {σ : Type} (c : Config) (w : Dialogue.World (StateM σ))
    (given : Option String) (input : List InputLine) (t : σ) :
    ∃ (login : List Remark) (selected : Option Identity) (turns : List (List Remark))
      (rest : List InputLine),
      (((Desk.ofConfig c).play w given input).run t).1.events
          = (login ++ turns.flatten).map Remark.event
        ∧ Heard (login ++ turns.flatten) input rest
        ∧ Login c.identities given login selected
        ∧ (∀ turn ∈ turns, ∃ user, selected = some user ∧ Turn c w.file user turn)
        ∧ (∀ e ∈ (((Desk.ofConfig c).play w given input).run t).1.events, e.IsBlock ↔
          ∃ turn ∈ turns, ∃ user d, selected = some user ∧ e = .deploy d
            ∧ Signed c w.file user turn d)
        ∧ (∀ turn ∈ turns, ∀ p, .said (.failure p) ∈ turn → ∀ r ∈ turn, ¬ r.event.IsBlock)
        ∧ ∀ (d : Deploy) (colored : Bool), (Event.deploy d).render colored
          = Span.render colored ⟨some .yellow, "Copy the cmd :"⟩ ++ "\n\t"
            ++ Span.render colored ⟨some .magenta, d.command⟩ ++ "\n" := by
  obtain ⟨login, selected, turns, rest, hevents, hheard, hlogin, hturns⟩ :=
    Desk.play_minutes c w given input t
  refine ⟨login, selected, turns, rest, hevents, hheard, hlogin, hturns, ?_, ?_,
    Event.render_deploy⟩
  · intro e he
    constructor
    · intro hblock
      rw [hevents, List.mem_map] at he
      obtain ⟨r, hr, rfl⟩ := he
      rcases List.mem_append.1 hr with hr | hr
      · exact absurd hblock (hlogin.not_isBlock r hr)
      obtain ⟨turn, hturn, hr⟩ := List.mem_flatten.1 hr
      obtain ⟨user, hselected, hform⟩ := hturns turn hturn
      obtain ⟨d, hd, hsigned⟩ := hform.signed_of_isBlock hr hblock
      exact ⟨turn, hturn, user, d, hselected, hd, hsigned⟩
    · rintro ⟨_, _, _, d, _, rfl, _⟩
      exact Event.isBlock_deploy d
  · intro turn hturn p hp
    obtain ⟨user, _, hform⟩ := hturns turn hturn
    exact hform.not_isBlock_of_failure hp

end TokenMarket

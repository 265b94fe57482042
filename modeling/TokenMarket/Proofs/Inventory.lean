import TokenMarket.Proofs.Places
import TokenMarket.Proofs.SealedArgument
import TokenMarket.Proofs.SignedCommands

/-!
# What a session can show

Much of what a session shows is not its own: names and paths come from the configuration,
choices from a person, records and complaints from a node.  Whoever wants to rely on the look
of the output has to know which of these texts get into it, and where.  This module is an
inventory of the events, with the place that each of their texts comes from.

There are four groups.

* Commands.  What is typed gets into the command of a deploy as a number or a hash, and
  metadata with a control is refused.  So every control of a command comes from one of the
  `Config.commandTexts`, `Terms.command_controls`.
* Events.  `Own` is said of the fixed texts of the program.  `Event.From` says of an event
  that its other texts come from certain `Sources`.
* Dialogues.  `Dialogue.Shows` says that a dialogue shows nothing but certain events, in
  whichever way it goes.  It has one rule for each step of a dialogue or of a command.
* Sessions.  `Session.command_shows` follows the steps of every entry.  Of what is typed
  only a choice that is not in the menu is shown again, and `Session.always_turn_from` takes
  it from the minutes.  `Desk.play_from` is about the whole session.

Records and failures are in the inventory without a condition.  A record may hold any text,
and what becomes of it is up to its layout.  A failure may quote whatever was received.
-/

namespace TokenMarket

/-! ## Commands -/

section Commands

open Text (Harmless IsControl)

variable {c : Config} {signer : String} {order : Order} {d : Deploy}

/-- The texts of the configuration that get into the command of a deploy for the signer. -/
def Config.commandTexts (c : Config) (signer : String) : List String :=
  [c.node.address, c.chainName, c.artifacts.contractModule, c.artifacts.sessionModule, signer]

theorem Text.Harmless.not_isControl {cs : List Char} (h : Harmless cs) : ∀ x ∈ cs, ¬ IsControl x :=
  fun x hx => (h x hx).2

/-- What an order runs is named by the configuration. -/
theorem Order.target_texts (c : Config) (signer : String) (order : Order) :
    ∀ text ∈ (order.target c).arguments,
      text ∈ c.commandTexts signer ∨ ∀ x ∈ text.toList, ¬ IsControl x := by
  have hstored : ∀ entryPoint : String, Harmless entryPoint.toList → ∀ text ∈
      (DeployTarget.storedContract c.contract entryPoint).arguments,
      text ∈ c.commandTexts signer ∨ ∀ x ∈ text.toList, ¬ IsControl x := by
    intro entryPoint hentry
    have hflags : Harmless "--session-hash".toList ∧ Harmless "--session-entry-point".toList := by
      decide
    simp only [DeployTarget.arguments, List.forall_mem_cons]
    exact ⟨.inr hflags.1.not_isControl, .inr c.contract.harmless_formatted.not_isControl,
      .inr hflags.2.not_isControl, .inr hentry.not_isControl, by simp⟩
  have hmodule : ∀ path, path ∈ c.commandTexts signer → ∀ text ∈
      (DeployTarget.sessionModule path).arguments,
      text ∈ c.commandTexts signer ∨ ∀ x ∈ text.toList, ¬ IsControl x := by
    intro path hpath
    have hflag : Harmless "--session-path".toList := by decide
    simp only [DeployTarget.arguments, List.forall_mem_cons]
    exact ⟨.inr hflag.not_isControl, .inl hpath, by simp⟩
  cases order with
  | install => exact hmodule _ (by simp [Config.commandTexts])
  | buy => exact hmodule _ (by simp [Config.commandTexts])
  | mint | publish | approve | cancel | disapprove => exact hstored _ (by decide)

/-- The texts of an order do not get into a deploy but as numbers and hashes, and as
metadata, where no control is let through. -/
theorem Terms.simple_controls (h : (ofConfig c).build signer order = .ok d) {a : Argument}
    (ha : a ∈ d.args) : ∀ x ∈ a.simple.toList, ¬ IsControl x := by
  have hcolon : ':' ∉ a.name.toList := build_named h a ha
  obtain ⟨hequals, hname⟩ := order.wire_harmless _ (mem_wire h ha)
  obtain ⟨args, hmeans, rfl⟩ := build_eq_ok_iff.1 h
  exact (Argument.sealed_of_harmless hcolon hequals hname (hmeans.harmless a ha)).controls

theorem Terms.argument_texts (h : (ofConfig c).build signer order = .ok d) :
    ∀ text ∈ d.arguments, text ∈ c.commandTexts signer ∨ ∀ x ∈ text.toList, ¬ IsControl x := by
  have hsimple := fun a ha => simple_controls h (a := a) ha
  have hflags : ∀ flag ∈ ["put-deploy", "--node-address", "--chain-name", "--secret-key",
      "--payment-amount", "--session-arg"], Harmless flag.toList := by
    decide
  simp only [List.forall_mem_cons] at hflags
  obtain ⟨hput, haddress, hchain, hkey, hamount, harg, -⟩ := hflags
  obtain ⟨args, -, rfl⟩ := build_eq_ok_iff.1 h
  have hpayment : ∀ n, Harmless (Numeral.decimal n).toList := fun n => by
    rw [Numeral.decimal, String.toList_ofList]
    exact Numeral.harmless_digits n
  rw [Deploy.arguments]
  refine List.forall_mem_append.2 ⟨List.forall_mem_append.2 ⟨?_, order.target_texts c signer⟩, ?_⟩
  · simp only [List.forall_mem_cons]
    exact ⟨.inr hput.not_isControl, .inr haddress.not_isControl,
      .inl (by simp [Config.commandTexts]), .inr hchain.not_isControl,
      .inl (by simp [Config.commandTexts]), .inr hkey.not_isControl,
      .inl (by simp [Config.commandTexts]), .inr hamount.not_isControl,
      .inr (hpayment _).not_isControl, by simp⟩
  · intro text htext
    obtain ⟨a, ha, htext⟩ := List.mem_flatMap.1 htext
    rcases List.mem_cons.1 htext with rfl | htext
    · exact .inr harg.not_isControl
    · rw [List.mem_singleton.1 htext]
      exact .inr (hsimple a ha)

/-- A control of a command is one of the configuration. -/
theorem Terms.command_controls (h : (ofConfig c).build signer order = .ok d) {x : Char}
    (hx : x ∈ d.command.toList) (hcontrol : IsControl x) :
    ∃ text ∈ c.commandTexts signer, x ∈ text.toList := by
  rw [Deploy.command, String.toList_ofList] at hx
  rcases ShellWord.mem_line hx with hprogram | ⟨word, hword, hx⟩ | hmark
  · have hharmless : Harmless Deploy.program.toList := by decide
    exact absurd hcontrol (hharmless x hprogram).2
  · obtain ⟨text, htext, rfl⟩ := List.mem_map.1 hword
    refine (argument_texts h text htext).elim (fun hmem => ⟨text, hmem, hx⟩) fun hnone => ?_
    exact absurd hcontrol (hnone x hx)
  · have hmarks : ∀ mark ∈ [' ', '\'', '\\'], ¬ IsControl mark := by
      simp only [List.forall_mem_cons]
      exact ⟨by decide, by decide, by decide, List.forall_mem_nil _⟩
    exact absurd hcontrol (hmarks x hmark)

end Commands

/-! ## Events -/

/-- A text of the program: it begins with a capital letter, and has no controls. -/
def Own (text : String) : Prop :=
  text.toList.head?.any (·.isUpper) = true ∧ text.toList.all (0x20 ≤ ·.toNat) = true

instance (text : String) : Decidable (Own text) :=
  inferInstanceAs (Decidable (_ ∧ _))

theorem Own.not_mem {text : String} (h : Own text) {c : Char} (hc : c.toNat < 0x20) :
    c ∉ text.toList := by
  intro hmem
  have hvisible := List.all_eq_true.1 h.2 c hmem
  exact absurd hc (Nat.not_lt.2 (of_decide_eq_true hvisible))

theorem Own.append {a b : String} (ha : Own a) (hb : b.toList.all (0x20 ≤ ·.toNat) = true) :
    Own (a ++ b) := by
  obtain ⟨hbegins, hvisible⟩ := ha
  rw [Own, String.toList_append, List.all_append, hvisible, hb]
  refine ⟨?_, rfl⟩
  cases hchars : a.toList with
  | nil => simp [hchars] at hbegins
  | cons c cs => simpa [hchars] using hbegins

theorem own_slotPrompt {label : String} (h : Own label) (identities : Registry) :
    Own (Session.slotPrompt label identities) := by
  have hdigits : (Numeral.decimal identities.length).toList.all (0x20 ≤ ·.toNat) = true := by
    rw [Numeral.decimal, String.toList_ofList, List.all_eq_true]
    intro c hc
    have hcode := Numeral.toNat_of_isDigit (Numeral.isDigit_of_mem_digits _ c hc)
    simp only [decide_eq_true_eq]
    omega
  exact ((h.append (by decide)).append hdigits).append (by decide)

theorem Text.all_ofList {p : Char → Bool} {cs : List Char} (h : cs.all p = true) :
    (String.ofList cs).toList.all p = true := by
  rwa [String.toList_ofList]

-- The text is long.  Its characters are looked through as a list, since it takes too long to
-- find them in its bytes.
set_option maxRecDepth 4000 in
/-- The only controls of the menu are the line feeds between its lines. -/
theorem menu_controls {c : Char} (hc : c ∈ menuText.toList) (hcontrol : c.toNat < 0x20) :
    c = '\n' := by
  have hall : menuText.toList.all (fun c => c == '\n' || decide (0x20 ≤ c.toNat)) = true :=
    Text.all_ofList (by decide +kernel)
  have hmenu := List.all_eq_true.1 hall c hc
  simp only [Bool.or_eq_true, beq_iff_eq, decide_eq_true_eq] at hmenu
  exact hmenu.resolve_right (by omega)

/-- Where the texts of a session come from. -/
structure Sources where
  /-- The names of those who can log in. -/
  names : String → Prop
  /-- What can be typed as a choice. -/
  choices : String → Prop
  /-- The deploys that can be built. -/
  deploys : Deploy → Prop

/-- The texts of the event are the program's own, or come from the sources.  Records and
failures may have any texts. -/
def Event.From (src : Sources) : Event → Prop
  | prompt text | heading text => Own text
  | menu | record _ | failure _ => True
  | welcome name => src.names name
  | unknownChoice choice => src.choices choice
  | deploy d => src.deploys d

/-! ## Dialogues -/

namespace Dialogue

variable {α β : Type} {files : String → Except FileError String} {E F : Event → Prop}

/-- In whichever way the dialogue goes, it shows nothing but such events. -/
structure Shows (files : String → Except FileError String) (E : Event → Prop) (d : Dialogue α) :
    Prop where
  always : Always files d fun minutes _ => ∀ r ∈ minutes, E r.event

theorem Shows.mono {d : Dialogue α} (hd : Shows files E d) (h : ∀ e, E e → F e) :
    Shows files F d :=
  ⟨hd.always.mono fun _ _ hE r hr => h _ (hE r hr)⟩

theorem shows_done (a : α) : Shows files E (done a) := ⟨List.forall_mem_nil _⟩

theorem shows_say {e : Event} {next : Dialogue α} (he : E e) (h : Shows files E next) :
    Shows files E (say e next) :=
  ⟨h.always.mono fun _ _ hE => List.forall_mem_cons.2 ⟨he, hE⟩⟩

theorem shows_ask {prompt : String} {next : Option String → Dialogue α}
    (hprompt : E (.prompt prompt)) (h : ∀ line, Shows files E (next line)) :
    Shows files E (ask prompt next) :=
  ⟨List.forall_mem_singleton.2 hprompt, fun line =>
    (h line).always.mono fun _ _ hE => List.forall_mem_cons.2 ⟨hprompt, hE⟩⟩

theorem shows_file {path : String} {next : Except FileError String → Dialogue α}
    (h : ∀ text, Shows files E (next text)) : Shows files E (file path next) :=
  ⟨(h (files path)).always⟩

theorem shows_read {q : Read} {next : Except Error q.Answer → Dialogue α}
    (h : ∀ answer, Shows files E (next answer)) : Shows files E (read q next) :=
  ⟨fun answer => (h answer).always⟩

theorem shows_bind {d : Dialogue α} {f : α → Dialogue β} (hd : Shows files E d)
    (hf : ∀ a, Shows files E (f a)) : Shows files E (d >>= f) := by
  refine ⟨always_bind (hd.always.mono fun first result hfirst => ?_)⟩
  cases result with
  | none => exact hfirst
  | some a =>
    exact (hf a).always.mono fun _ _ hsecond => List.forall_mem_append.2 ⟨hfirst, hsecond⟩

end Dialogue

namespace Command

open Dialogue (Shows)

variable {α β : Type} {files : String → Except FileError String} {E : Event → Prop}

theorem shows_pure (a : α) : Shows files E (pure a : Command α).run := Dialogue.shows_done _

theorem shows_bind {x : Command α} {f : α → Command β} (hx : Shows files E x.run)
    (hf : ∀ a, Shows files E (f a).run) : Shows files E (x >>= f).run := by
  rw [ExceptT.run_bind]
  refine Dialogue.shows_bind hx fun result => ?_
  cases result with
  | ok a => exact hf a
  | error p => exact Dialogue.shows_done _

theorem shows_display {e : Event} (he : E e) : Shows files E (display e).run :=
  Dialogue.shows_say he (Dialogue.shows_done _)

theorem shows_ask {prompt : String} (hprompt : E (.prompt prompt)) :
    Shows files E (ask prompt).run :=
  Dialogue.shows_ask hprompt fun _ => Dialogue.shows_done _

theorem shows_ofExcept (result : Except Error α) : Shows files E (ofExcept result).run :=
  Dialogue.shows_done _

theorem shows_read (q : Read) : Shows files E (read q).run :=
  Dialogue.shows_read fun _ => Dialogue.shows_done _

theorem shows_metadataText (path : String) : Shows files E (metadataText path).run :=
  Dialogue.shows_file fun _ => Dialogue.shows_done _

theorem shows_displayAll {events : List Event} (h : ∀ e ∈ events, E e) :
    Shows files E (displayAll events).run := by
  induction events with
  | nil => exact shows_pure ()
  | cons e rest ih =>
    obtain ⟨he, hrest⟩ := List.forall_mem_cons.1 h
    exact shows_bind (shows_display he) fun _ => ih hrest

end Command

/-! ## Sessions -/

namespace Session

open Command
open Dialogue (Shows)

variable {files : String → Except FileError String} {s : Session} {src : Sources}

theorem shows_heading {text : String} (h : Own text) :
    Shows files (Event.From src) (display (.heading text)).run :=
  shows_display h

theorem shows_record (view : Json) : Shows files (Event.From src) (display (.record view)).run :=
  shows_display trivial

/-- A deploy is shown only if it was built. -/
theorem shows_place {order : Order}
    (h : ∀ d, s.terms.build s.user.secretKey order = .ok d → src.deploys d) :
    Shows files (Event.From src) (s.place order).run := by
  rw [place]
  cases hbuilt : s.terms.build s.user.secretKey order with
  | ok d => exact shows_display (h d hbuilt)
  | error e => exact Dialogue.shows_done _

/-- The records of a list under its heading. -/
theorem shows_listed {q : Read} {text : String} {events : q.Answer → List Event}
    (htext : Own text) (hevents : ∀ found, ∀ e ∈ events found, ∃ view, e = .record view) :
    Shows files (Event.From src) (do
      let found ← read q
      display (.heading text)
      displayAll (events found) : Command Unit).run := by
  refine shows_bind (shows_read q) fun found =>
    shows_bind (shows_heading htext) fun _ => shows_displayAll fun e he => ?_
  obtain ⟨view, rfl⟩ := hevents found e he
  trivial

theorem shows_showIncoming : Shows files (Event.From src) s.showIncoming.run :=
  shows_listed (by decide) requestViews_records

theorem shows_showOutgoing : Shows files (Event.From src) s.showOutgoing.run :=
  shows_listed (by decide) requestViews_records

theorem shows_showHoldings : Shows files (Event.From src) s.showHoldings.run := by
  refine shows_listed (by decide) fun holdings e he => ?_
  obtain ⟨_, _, rfl⟩ := List.mem_map.1 he
  exact ⟨_, rfl⟩

/-- A record that is looked up by the id that is typed. -/
theorem shows_lookup {argument prompt : String} {q : UInt64 → Read}
    {view : (id : UInt64) → (q id).Answer → Json} (hprompt : Own prompt) :
    Shows files (Event.From src) (do
      let id ← askId argument prompt
      let found ← read (q id)
      display (.record (view id found)) : Command Unit).run :=
  shows_bind (shows_bind (shows_ask hprompt) fun _ => shows_ofExcept _)
    fun _ => shows_bind (shows_read _) fun _ => shows_record _

/-- A step that asks for a text, and what follows. -/
theorem shows_asked {α : Type} {prompt : String} {f : String → Command α} (hprompt : Own prompt)
    (h : ∀ text, Shows files (Event.From src) (f text).run) :
    Shows files (Event.From src) (ask prompt >>= f).run :=
  shows_bind (shows_ask hprompt) h

theorem shows_askMint : Shows files (Event.From src) s.askMint.run := by
  refine shows_asked (by decide) fun path => shows_bind (shows_metadataText path) fun text =>
    shows_bind (shows_ofExcept _) fun metadata => shows_asked (by decide) fun amount =>
    shows_asked ?_ fun slot => shows_bind (shows_ofExcept _) fun recipient =>
    shows_asked (by decide) fun price => shows_pure _
  exact own_slotPrompt (by decide) s.identities

theorem shows_askPublish : Shows files (Event.From src) askPublish.run :=
  shows_asked (by decide) fun commission => shows_asked (by decide) fun holderId =>
    shows_asked (by decide) fun amount => shows_asked (by decide) fun producer => shows_pure _

theorem shows_askBuy : Shows files (Event.From src) askBuy.run :=
  shows_asked (by decide) fun amount => shows_asked (by decide) fun approvedId =>
    shows_asked (by decide) fun price => shows_pure _

theorem shows_askDisapprove : Shows files (Event.From src) askDisapprove.run :=
  shows_asked (by decide) fun approvedId => shows_asked (by decide) fun amount =>
    shows_asked (by decide) fun publisher => shows_pure _

/-- A command shows texts of its own, records, and deploys that were built. -/
theorem command_shows
    (h : ∀ order d, s.terms.build s.user.secretKey order = .ok d → src.deploys d)
    (entry : MenuEntry) : Shows files (Event.From src) (s.command entry).run := by
  have hplace : ∀ order, Shows files (Event.From src) (s.place order).run := fun order =>
    shows_place (h order)
  cases entry with
  | install => exact hplace _
  | mint => exact shows_bind shows_askMint fun order => hplace _
  | publish => exact shows_bind shows_askPublish fun order => hplace _
  | viewRequest => exact shows_lookup (by decide)
  | incoming => exact shows_showIncoming
  | outgoing => exact shows_showOutgoing
  | holdings => exact shows_showHoldings
  | approve =>
    exact shows_bind shows_showIncoming fun _ => shows_asked (by decide) fun requestId => hplace _
  | buy => exact shows_bind shows_askBuy fun order => hplace _
  | viewToken => exact shows_lookup (by decide)
  | viewHolder => exact shows_lookup (by decide)
  | cancel =>
    exact shows_bind shows_showOutgoing fun _ => shows_asked (by decide) fun requestId => hplace _
  | viewApproved => exact shows_lookup (by decide)
  | disapprove => exact shows_bind shows_askDisapprove fun order => hplace _
  | namedKey =>
    exact shows_asked (by decide) fun name => shows_bind (shows_read _) fun v => shows_record v
  | exit => exact shows_pure ()

/-- A choice that is not in the menu is shown as it was typed. -/
theorem perform_shows
    (h : ∀ order d, s.terms.build s.user.secretKey order = .ok d → src.deploys d)
    (choice : String) :
    Shows files (fun e => src.choices choice → e.From src) (s.perform choice) := by
  unfold perform
  split
  · exact Dialogue.shows_say id (Dialogue.shows_done _)
  · exact Dialogue.shows_done _
  · refine Dialogue.shows_bind ((command_shows h _).mono fun e he _ => he) fun result => ?_
    cases result with
    | ok _ => exact Dialogue.shows_done _
    | error p => exact Dialogue.shows_say (fun _ => trivial) (Dialogue.shows_done _)

end Session

/-- The lines that were typed can be choices. -/
def Sources.Typed (src : Sources) (minutes : List Remark) : Prop :=
  ∀ prompt line, .asked prompt (some line) ∈ minutes → src.choices (Text.trim line)

/-- An answer is a line of the input. -/
theorem Heard.mem_input {minutes : List Remark} {input rest : List InputLine}
    (h : Heard minutes input rest) {prompt line : String}
    (hasked : .asked prompt (some line) ∈ minutes) : some line ∈ input := by
  induction h with
  | nil => cases hasked
  | said _ ih => exact ih ((List.mem_cons.1 hasked).resolve_left (by simp))
  | line _ ih =>
    rcases List.mem_cons.1 hasked with heq | hmem
    · obtain ⟨-, hline⟩ := Remark.asked.inj heq
      exact hline ▸ List.mem_cons_self
    · exact List.mem_cons_of_mem _ (ih hmem)
  | ended _ ih => exact ih ((List.mem_cons.1 hasked).resolve_left (by simp))
  | unread _ ih =>
    exact List.mem_cons_of_mem _ (ih ((List.mem_cons.1 hasked).resolve_left (by simp)))

section Sessions

variable {c : Config} {files : String → Except FileError String} {s : Session} {src : Sources}

theorem Event.from_choicePrompt : (Event.prompt "Enter your choice : ").From src :=
  show Own "Enter your choice : " by decide

/-- What follows on a choice. -/
theorem Session.always_perform_from
    (h : ∀ order d, s.terms.build s.user.secretKey order = .ok d → src.deploys d)
    (line : String) :
    Dialogue.Always files (s.perform (Text.trim line)) fun body _ =>
      src.Typed (.said .menu :: .asked "Enter your choice : " (some line) :: body) →
        ∀ r ∈ Remark.said .menu :: .asked "Enter your choice : " (some line) :: body,
          r.event.From src := by
  have hperform : Dialogue.Shows files (fun e => src.choices (Text.trim line) → e.From src)
      (s.perform (Text.trim line)) := perform_shows h (Text.trim line)
  apply hperform.always.mono
  intro body _ hbody htyped
  have hchoice : src.choices (Text.trim line) := htyped "Enter your choice : " line (by simp)
  refine List.forall_mem_cons.2 ⟨trivial, List.forall_mem_cons.2 ⟨?_, fun r hr => ?_⟩⟩
  · exact Event.from_choicePrompt
  · exact hbody r hr hchoice

theorem Session.always_turn_from
    (h : ∀ order d, s.terms.build s.user.secretKey order = .ok d → src.deploys d) :
    Dialogue.Always files s.turn fun turn _ => src.Typed turn → ∀ r ∈ turn, r.event.From src := by
  have hopening : (∀ r ∈ [Remark.said .menu, .unread "Enter your choice : "], r.event.From src) ∧
      ∀ r ∈ [Remark.said .menu, .asked "Enter your choice : " none], r.event.From src := by
    simp only [List.forall_mem_cons]
    exact ⟨⟨trivial, Event.from_choicePrompt, by simp⟩,
      ⟨trivial, Event.from_choicePrompt, by simp⟩⟩
  refine ⟨fun _ => hopening.1, fun line => ?_⟩
  cases line with
  | none => exact fun _ => hopening.2
  | some line => exact always_perform_from h line

/-- The sources of a session: the names of the identities, the lines of the input without the
blanks at their ends, and the deploys that are built for the identities. -/
def Config.sources (c : Config) (input : List InputLine) : Sources where
  names name := ∃ user ∈ c.identities, user.name = name
  choices choice := ∃ line, some line ∈ input ∧ Text.trim line = choice
  deploys d := ∃ user ∈ c.identities, ∃ order, (Terms.ofConfig c).build user.secretKey order = .ok d

/-- The inventory of a session. -/
theorem Desk.play_from {σ : Type} (c : Config) (w : Dialogue.World (StateM σ))
    (given : Option String) (input : List InputLine) (t : σ) :
    ∀ e ∈ (((Desk.ofConfig c).play w given input).run t).1.events, e.From (c.sources input) := by
  have hturn : ∀ user slot, c.identities.select slot = .ok user → Dialogue.Always w.file
      (⟨Terms.ofConfig c, c.identities, user⟩ : Session).turn fun turn _ =>
        (c.sources input).Typed turn → ∀ r ∈ turn, r.event.From (c.sources input) :=
    fun user slot hslot => Session.always_turn_from fun order d hd =>
      ⟨user, Registry.mem_of_select hslot, order, hd⟩
  obtain ⟨login, selected, turns, rest, hevents, hheard, hlogin, hturns⟩ :=
    Desk.play_always hturn given input t
  have htyped : (c.sources input).Typed (login ++ turns.flatten) := fun prompt line hmem =>
    ⟨line, hheard.mem_input hmem, rfl⟩
  intro e he
  rw [hevents] at he
  obtain ⟨r, hr, rfl⟩ := List.mem_map.1 he
  rcases List.mem_append.1 hr with hr | hr
  · refine hlogin.forall_event ?_ (fun _ => trivial) (fun user slot hslot => ?_) r hr
    · exact own_slotPrompt (by decide) c.identities
    · exact ⟨user, Registry.mem_of_select hslot, rfl⟩
  · obtain ⟨turn, hmem, hr⟩ := List.mem_flatten.1 hr
    obtain ⟨_, _, _, hfrom⟩ := hturns turn hmem
    refine hfrom (fun prompt line hasked => ?_) r hr
    exact htyped prompt line (List.mem_append_right login (List.mem_flatten.2 ⟨turn, hmem, hasked⟩))

end Sessions

end TokenMarket

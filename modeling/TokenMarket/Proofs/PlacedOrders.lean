import TokenMarket.Proofs.CheckedOrder
import TokenMarket.Proofs.JsonWord
import TokenMarket.Proofs.Minutes

/-!
# What a command may show for signing

A command of the menu that changes something ends with a block: a heading,
and under it the command of a deploy for a person to copy.  This module says
what that deploy is made of.  It goes through the commands one by one, in
all the ways that their dialogues can go.

There are three groups.

* Blocks.  An event is a block if one of its spans is the heading.  Deploys
  are blocks.  The other events of a command are `Event.Plain`, and the
  lemmas of this group tell why their texts are no heading.
* Orders.  `Ordered` lists which answers to which prompts make which order.
  The prompts come in the order of the dialogue, and not in that of the
  order's fields.  `Deploy.Carries` is what a deploy has from the
  configuration, the key and the order, and `Terms.build_carries` proves it
  of everything that is built.
* Commands.  `Command.Concludes` says how a command may end.  It has one
  rule for each step that a command can take, so `Session.command_concludes`
  only follows the steps of every entry.
-/

namespace TokenMarket

/-! ## Blocks -/

namespace Event

/-- One of the spans of the event is the heading above a command. -/
def IsBlock (e : Event) : Prop := "Copy the cmd :" ∈ e.spans.map Span.text

/-- An event that is no block, and with which no turn begins or fails. -/
def Plain : Event → Prop
  | menu | failure _ => False
  | e => ¬ e.IsBlock

variable {e : Event}

theorem Plain.not_isBlock (h : e.Plain) : ¬ e.IsBlock := by
  cases e with
  | menu | failure => exact h.elim
  | prompt | welcome | heading | record | deploy | unknownChoice => exact h

theorem Plain.ne_failure (h : e.Plain) (p : Problem) : e ≠ .failure p := by
  rintro rfl
  exact h

theorem isBlock_deploy (d : Deploy) : (deploy d).IsBlock := List.mem_cons_self

/-- A deploy is its heading and, behind a tab, its command. -/
theorem render_deploy (d : Deploy) (colored : Bool) :
    (deploy d).render colored = Span.render colored ⟨some .yellow, "Copy the cmd :"⟩ ++ "\n\t"
      ++ Span.render colored ⟨some .magenta, d.command⟩ ++ "\n" := by
  have hbreak : Span.render colored ⟨none, "\n"⟩ = "\n" := rfl
  have htab : Span.render colored ⟨none, "\t"⟩ = "\t" := rfl
  rw [← String.toList_inj]
  simp [render, spans, line, hbreak, htab]

theorem isBlock_line_iff {color : Color} {text : String} :
    "Copy the cmd :" ∈ (line color text).map Span.text ↔ text = "Copy the cmd :" := by
  simp [line, eq_comm]

theorem ne_heading {text : String} (h : text.toList.head? ≠ some 'C') :
    text ≠ "Copy the cmd :" := by
  rintro rfl
  exact h rfl

theorem plain_prompt {prompt : String} (h : prompt ≠ "Copy the cmd :") :
    (Event.prompt prompt).Plain := by
  simpa [Plain, IsBlock, spans] using h.symm

theorem plain_heading {text : String} (h : text ≠ "Copy the cmd :") : (heading text).Plain :=
  fun hblock => h (isBlock_line_iff.1 hblock)

theorem plain_welcome (name : String) : (welcome name).Plain := fun hblock =>
  ne_heading (by simp) (isBlock_line_iff.1 hblock)

theorem plain_unknownChoice (choice : String) : (unknownChoice choice).Plain := fun hblock =>
  ne_heading (by simp) (isBlock_line_iff.1 hblock)

theorem not_isBlock_menu : ¬ menu.IsBlock := by
  intro hblock
  have htext : menuText = "Copy the cmd :" := isBlock_line_iff.1 hblock
  simp [menuText] at htext

/-- A failure is shown behind the name of its cause. -/
theorem not_isBlock_failure (p : Problem) : ¬ (failure p).IsBlock := by
  intro hblock
  refine ne_heading ?_ (isBlock_line_iff.1 hblock)
  cases p with
  | marketplace e => cases e <;> simp [Problem.kind, Error.kind]
  | metadataFile | render | terminal => simp [Problem.kind]

end Event

/-- The text of a value begins with a bracket, a quote, a digit, a sign, or
the small letter of a name. -/
theorem Json.isUpper_head_wideChars {level : Nat} {v : Json} {c : Char}
    (h : (wideChars level v).head? = some c) : c.isUpper = false := by
  have hlower : ∀ {cs : List Char}, Lower cs → cs.head? = some c → c.isUpper = false :=
    fun hcs hc => hcs c (List.mem_of_mem_head? hc)
  match v with
  | null => exact hlower (by simp [Lower, wideChars, nullText]) h
  | bool b => exact hlower (by cases b <;> simp [Lower, wideChars, boolText]) h
  | int n => exact hlower (numeric_intText n).lower (by simpa only [wideChars] using h)
  | real x => exact hlower (numeric_realText x).lower (by simpa only [wideChars] using h)
  | string _ | array [] | array (_ :: _) | object [] | object (_ :: _) =>
    simp [wideChars, stringText] at h
    subst h
    decide

theorem Event.plain_record (view : Json) : (record view).Plain := by
  intro hblock
  refine ne_heading (fun hhead => ?_) (isBlock_line_iff.1 hblock)
  rw [Json.wide, String.toList_ofList] at hhead
  exact absurd (Json.isUpper_head_wideChars hhead) (by decide)

/-- Minutes of plain events. -/
def Plain (minutes : List Remark) : Prop := ∀ r ∈ minutes, r.event.Plain

namespace Plain

theorem nil : Plain [] := fun _ hr => absurd hr List.not_mem_nil

theorem cons {r : Remark} {minutes : List Remark} (hr : r.event.Plain) (h : Plain minutes) :
    Plain (r :: minutes) := by
  intro x hx
  rcases List.mem_cons.1 hx with rfl | hx
  · exact hr
  · exact h x hx

end Plain

/-! ## Orders -/

/-- What an entry asks for and is answered, prompt by prompt, and the order
that the answers make. -/
inductive Ordered (identities : Registry) (files : String → Except FileError String) :
    MenuEntry → List (String × String) → Order → Prop
  | install : Ordered identities files .install [] .install
  /-- The metadata is in the file at the path, and the recipient is one of
  the identities. -/
  | mint {path amount slot price text : String} {metadata : Metadata} {recipient : Identity}
      (htext : files path = .ok text) (hmetadata : Metadata.parse text = .ok metadata)
      (hrecipient : identities.select slot = .ok recipient) :
      Ordered identities files .mint
        [("Metadata path : ", path), ("Amount : ", amount),
          (Session.slotPrompt "Recipient" identities, slot), ("Price : ", price)]
        (.mint { metadata, price, amount, recipient := recipient.account })
  | publish {commission holderId amount producer : String} :
      Ordered identities files .publish
        [("Enter your expected comission [0-100]: ", commission),
          ("Enter holder_id : ", holderId), ("Enter amount to request: ", amount),
          ("Enter producer's account-hash : ", producer)]
        (.publish { producer, amount, holderId, commission })
  | approve {requestId : String} :
      Ordered identities files .approve [("Enter the request_id : ", requestId)]
        (.approve requestId)
  | buy {amount approvedId price : String} :
      Ordered identities files .buy
        [("Enter the amount : ", amount), ("Enter the approved_id : ", approvedId),
          ("Enter the price : ", price)]
        (.buy { amount, approvedId, price })
  | cancel {requestId : String} :
      Ordered identities files .cancel [("Enter the request_id : ", requestId)]
        (.cancel requestId)
  | disapprove {approvedId amount publisher : String} :
      Ordered identities files .disapprove
        [("Enter the approved_id : ", approvedId), ("Enter the amount : ", amount),
          ("Enter publisher's account-hash : ", publisher)]
        (.disapprove { amount, approvedId, publisher })

/-- What a deploy has from the configuration, from the key that signs, and
from its order.  What is minted goes to the recipient. -/
structure Deploy.Carries (c : Config) (key : String) (order : Order) (d : Deploy) : Prop where
  chainName : d.chainName = c.chainName
  nodeAddress : d.nodeAddress = c.node.address
  signer : d.signer = key
  payment : d.payment = order.payment c.payments
  target : d.target = order.target c
  recipient : ∀ m, order = .mint m → Argument.find? d.args "recipient" = some (.account m.recipient)

theorem Terms.build_carries {c : Config} {key : String} {order : Order} {d : Deploy}
    (h : (Terms.ofConfig c).build key order = .ok d) : d.Carries c key order := by
  obtain ⟨args, hmeans, rfl⟩ := build_eq_ok_iff.1 h
  refine ⟨rfl, rfl, rfl, rfl, rfl, ?_⟩
  rintro m rfl
  cases hmeans with
  | mint => simp [Argument.find?]

/-! ## Commands -/

namespace Command

/-- The minutes and the result of a command.  Either no block was shown, or
one as the last of all, of a deploy that goes with the answers. -/
inductive Conclusion (good : List (String × String) → Deploy → Prop) :
    List Remark → Option (Except Problem Unit) → Prop
  | plain {minutes : List Remark} {result : Option (Except Problem Unit)} (h : Plain minutes) :
      Conclusion good minutes result
  | signed {asked : List Remark} {d : Deploy} (hasked : Plain asked)
      (hgood : good (answers asked) d) :
      Conclusion good (asked ++ [.said (.deploy d)]) (some (.ok ()))

variable {files : String → Except FileError String}
  {good : List (String × String) → Deploy → Prop} {α : Type}

/-- A plain event in front changes nothing but the answers. -/
theorem conclusion_cons {r : Remark} (hr : r.event.Plain) {minutes : List Remark}
    {result : Option (Except Problem Unit)}
    (h : Conclusion (fun asked => good (r.answer?.toList ++ asked)) minutes result) :
    Conclusion good (r :: minutes) result := by
  cases h with
  | plain h => exact .plain (h.cons hr)
  | @signed asked d hasked hgood =>
    have hanswers : answers (r :: asked) = r.answer?.toList ++ answers asked := by
      cases r <;> rfl
    exact .signed (hasked.cons hr) (hanswers ▸ hgood)

/-- A command ends like this in whichever way it goes. -/
def Concludes (files : String → Except FileError String) (x : Command Unit)
    (good : List (String × String) → Deploy → Prop) : Prop :=
  Dialogue.Always files x.run (Conclusion good)

theorem concludes_pure : Concludes files (pure ()) good := Conclusion.plain .nil

/-- A step that asks puts its answer in front of those that follow. -/
theorem concludes_ask {prompt : String} {f : String → Command Unit}
    (hprompt : prompt ≠ "Copy the cmd :")
    (h : ∀ text, Concludes files (f text) fun asked => good ((prompt, text) :: asked)) :
    Concludes files (ask prompt >>= f) good := by
  refine ⟨.plain (.cons (Event.plain_prompt hprompt) .nil), fun line => ?_⟩
  have hrest : Dialogue.Always files (f (line.getD "")).run _ := h (line.getD "")
  exact hrest.mono fun _ _ hc =>
    conclusion_cons (r := .asked prompt line) (Event.plain_prompt hprompt) hc

/-- A step that fails ends the command before any block. -/
theorem concludes_ofExcept {result : Except Error α} {f : α → Command Unit}
    (h : ∀ a, result = .ok a → Concludes files (f a) good) :
    Concludes files (ofExcept result >>= f) good := by
  cases result with
  | ok a => exact h a rfl
  | error e => exact Conclusion.plain .nil

theorem concludes_read {q : Read} {f : q.Answer → Command Unit}
    (h : ∀ answer, Concludes files (f answer) good) : Concludes files (read q >>= f) good := by
  intro answer
  cases answer with
  | ok a => exact h a
  | error e => exact Conclusion.plain .nil

theorem concludes_metadataText {path : String} {f : String → Command Unit}
    (h : ∀ text, files path = .ok text → Concludes files (f text) good) :
    Concludes files (metadataText path >>= f) good := by
  have hstep : Concludes files (metadataText path >>= f) good
      = Concludes files (ExceptT.mk (.done ((files path).mapError fun e =>
        Problem.metadataFile path e.message)) >>= f) good := rfl
  rw [hstep]
  cases hfile : files path with
  | ok text => exact h text hfile
  | error e => exact Conclusion.plain .nil

theorem concludes_display {e : Event} {f : Unit → Command Unit} (he : e.Plain)
    (h : Concludes files (f ()) good) : Concludes files (display e >>= f) good := by
  have hrest : Dialogue.Always files (f ()).run (Conclusion good) := h
  exact hrest.mono fun _ _ hc => conclusion_cons (r := .said e) he hc

theorem concludes_displayAll {events : List Event} {f : Unit → Command Unit}
    (hevents : ∀ e ∈ events, e.Plain) (h : Concludes files (f ()) good) :
    Concludes files (displayAll events >>= f) good := by
  induction events with
  | nil => exact h
  | cons e rest ih =>
    rw [displayAll, bind_assoc]
    exact concludes_display (hevents e List.mem_cons_self)
      (ih fun x hx => hevents x (List.mem_cons_of_mem e hx))

end Command

namespace Session

open Command

variable {files : String → Except FileError String}
  {good : List (String × String) → Deploy → Prop} {s : Session}

/-- A deploy is shown as the last of all, and only if it was built. -/
theorem concludes_place {order : Order}
    (h : ∀ d, s.terms.build s.user.secretKey order = .ok d → good [] d) :
    Concludes files (s.place order) good :=
  concludes_ofExcept fun d hd => Conclusion.signed .nil (h d hd)

/-- A record is no block. -/
theorem concludes_record (view : Json) : Concludes files (display (.record view)) good := by
  rw [← bind_pure (display _)]
  exact concludes_display (Event.plain_record view) concludes_pure

/-- The records of a list under its heading. -/
theorem concludes_listed {text : String} {events : List Event} {f : Unit → Command Unit}
    (htext : text ≠ "Copy the cmd :") (hevents : ∀ e ∈ events, ∃ view, e = .record view)
    (h : Concludes files (f ()) good) :
    Concludes files (display (.heading text) >>= fun _ => displayAll events >>= f) good := by
  refine concludes_display (Event.plain_heading htext) (concludes_displayAll ?_ h)
  intro e he
  obtain ⟨view, rfl⟩ := hevents e he
  exact Event.plain_record view

theorem requestViews_records (requests : List (UInt64 × Request)) :
    ∀ e ∈ s.requestViews requests, ∃ view, e = .record view := by
  intro e he
  obtain ⟨_, _, rfl⟩ := List.mem_map.1 he
  exact ⟨_, rfl⟩

theorem concludes_showIncoming {f : Unit → Command Unit} (h : Concludes files (f ()) good) :
    Concludes files (s.showIncoming >>= f) good := by
  simp only [showIncoming, bind_assoc]
  exact concludes_read fun requests =>
    concludes_listed (by decide) (requestViews_records requests) h

theorem concludes_showOutgoing {f : Unit → Command Unit} (h : Concludes files (f ()) good) :
    Concludes files (s.showOutgoing >>= f) good := by
  simp only [showOutgoing, bind_assoc]
  exact concludes_read fun requests =>
    concludes_listed (by decide) (requestViews_records requests) h

theorem concludes_showHoldings : Concludes files s.showHoldings good := by
  rw [← bind_pure s.showHoldings]
  simp only [showHoldings, bind_assoc]
  refine concludes_read fun holdings => concludes_listed (by decide) ?_ concludes_pure
  intro e he
  obtain ⟨_, _, rfl⟩ := List.mem_map.1 he
  exact ⟨_, rfl⟩

/-- A record that is looked up by the id that is typed. -/
theorem concludes_lookup {argument prompt : String} {q : UInt64 → Read}
    {view : (id : UInt64) → (q id).Answer → Json} (hprompt : prompt ≠ "Copy the cmd :") :
    Concludes files (do
      let id ← askId argument prompt
      let found ← read (q id)
      display (.record (view id found))) good := by
  simp only [askId, bind_assoc]
  exact concludes_ask hprompt fun text => concludes_ofExcept fun id _ =>
    concludes_read fun found => concludes_record _

/-- The only block that a command shows is that of the deploy which was
built for the order that the answers to its prompts make. -/
theorem command_concludes (s : Session) (files : String → Except FileError String)
    (entry : MenuEntry) :
    Concludes files (s.command entry) fun asked d => ∃ order,
      Ordered s.identities files entry asked order
        ∧ s.terms.build s.user.secretKey order = .ok d := by
  cases entry with
  | install => exact concludes_place fun d hd => ⟨_, .install, hd⟩
  | mint =>
    simp only [command, askMint, bind_assoc, pure_bind]
    refine concludes_ask (by decide) fun path => concludes_metadataText fun text htext =>
      concludes_ofExcept fun metadata hmetadata => concludes_ask (by decide) fun amount =>
      concludes_ask ?_ fun slot => concludes_ofExcept fun recipient hrecipient =>
      concludes_ask (by decide) fun price =>
      concludes_place fun d hd => ⟨_, .mint htext hmetadata hrecipient, hd⟩
    exact Event.ne_heading (by simp [slotPrompt])
  | publish =>
    simp only [command, askPublish, bind_assoc, pure_bind]
    exact concludes_ask (by decide) fun commission => concludes_ask (by decide) fun holderId =>
      concludes_ask (by decide) fun amount => concludes_ask (by decide) fun producer =>
      concludes_place fun d hd => ⟨_, .publish, hd⟩
  | viewRequest => exact concludes_lookup (by decide)
  | incoming =>
    rw [command, ← bind_pure s.showIncoming]
    exact concludes_showIncoming concludes_pure
  | outgoing =>
    rw [command, ← bind_pure s.showOutgoing]
    exact concludes_showOutgoing concludes_pure
  | holdings => exact concludes_showHoldings
  | approve =>
    exact concludes_showIncoming (concludes_ask (by decide) fun requestId =>
      concludes_place fun d hd => ⟨_, .approve, hd⟩)
  | buy =>
    simp only [command, askBuy, bind_assoc, pure_bind]
    exact concludes_ask (by decide) fun amount => concludes_ask (by decide) fun approvedId =>
      concludes_ask (by decide) fun price =>
      concludes_place fun d hd => ⟨_, .buy, hd⟩
  | viewToken => exact concludes_lookup (by decide)
  | viewHolder => exact concludes_lookup (by decide)
  | cancel =>
    exact concludes_showOutgoing (concludes_ask (by decide) fun requestId =>
      concludes_place fun d hd => ⟨_, .cancel, hd⟩)
  | viewApproved => exact concludes_lookup (by decide)
  | disapprove =>
    simp only [command, askDisapprove, bind_assoc, pure_bind]
    exact concludes_ask (by decide) fun approvedId => concludes_ask (by decide) fun amount =>
      concludes_ask (by decide) fun publisher =>
      concludes_place fun d hd => ⟨_, .disapprove, hd⟩
  | namedKey =>
    exact concludes_ask (by decide) fun name => concludes_read fun v => concludes_record v
  | exit => exact concludes_pure

end Session

end TokenMarket

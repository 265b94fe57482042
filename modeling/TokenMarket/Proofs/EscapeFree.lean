import TokenMarket.Proofs.Inventory
import TokenMarket.Proofs.JsonLayout
import TokenMarket.Proofs.StyledText

/-!
# Texts without escape characters

A text from outside could hold an escape character, and be taken for a colour.  This module
says which of the texts that a session shows have none, and what that takes.

There are two groups.

* Texts.  A record has no escape characters, whatever it is about.  The command of a deploy
  has none if the configuration and the path of the key have none.
* Events.  `Event.Clear` is what can be said of an event without knowing the texts of
  failures, which may come from anywhere.
-/

namespace TokenMarket

open Ansi (escape NoEscape)

/-! ## Texts -/

section Texts

theorem Ansi.noEscape_append {a b : String} (ha : NoEscape a) (hb : NoEscape b) :
    NoEscape (a ++ b) := by
  rw [NoEscape, String.toList_append, List.mem_append]
  exact not_or.2 ⟨ha, hb⟩

/-- No record can hold an escape character, whatever its texts are. -/
theorem Json.noEscape_wide (v : Json) : NoEscape v.wide := fun hmem =>
  absurd (wide_controls hmem (by decide)) (by decide)

/-- No text of the configuration that a session shows has an escape character. -/
structure Config.EscapeFree (c : Config) : Prop where
  address : NoEscape c.node.address
  chainName : NoEscape c.chainName
  contractModule : NoEscape c.artifacts.contractModule
  sessionModule : NoEscape c.artifacts.sessionModule
  identities : ∀ user ∈ c.identities, NoEscape user.name ∧ NoEscape user.secretKey

variable {c : Config} {signer : String} {order : Order} {d : Deploy}

theorem Terms.noEscape_command (hc : c.EscapeFree) (hsigner : NoEscape signer)
    (h : (ofConfig c).build signer order = .ok d) : NoEscape d.command := by
  have htexts : ∀ text ∈ c.commandTexts signer, NoEscape text := by
    simp only [Config.commandTexts, List.forall_mem_cons]
    exact ⟨hc.address, hc.chainName, hc.contractModule, hc.sessionModule, hsigner, by simp⟩
  intro hmem
  obtain ⟨text, htext, hescape⟩ := command_controls h hmem (by decide)
  exact htexts text htext hescape

end Texts

/-! ## Events -/

namespace Event

/-- The event has no escape characters, or it is a failure. -/
def Clear : Event → Prop
  | failure _ => True
  | e => e.EscapeFree

theorem noEscape_line {color : Color} {text : String} (h : NoEscape text) :
    ∀ s ∈ line color text, NoEscape s.text := by
  rw [line, List.forall_mem_cons, List.forall_mem_singleton]
  exact ⟨h, by decide⟩

theorem clear_prompt {text : String} (h : NoEscape text) : (prompt text).Clear :=
  List.forall_mem_singleton.2 h

theorem clear_menu : menu.Clear :=
  noEscape_line fun hmem => absurd (menu_controls hmem (by decide)) (by decide)

theorem clear_heading {text : String} (h : NoEscape text) : (heading text).Clear :=
  noEscape_line h

theorem clear_welcome {name : String} (h : NoEscape name) : (welcome name).Clear :=
  noEscape_line (Ansi.noEscape_append (by decide) h)

theorem clear_unknownChoice {choice : String} (h : NoEscape choice) :
    (unknownChoice choice).Clear :=
  noEscape_line (Ansi.noEscape_append (by decide) h)

theorem clear_record (view : Json) : (record view).Clear :=
  noEscape_line view.noEscape_wide

theorem clear_deploy {d : Deploy} (h : NoEscape d.command) : (deploy d).Clear := by
  refine List.forall_mem_append.2 ⟨noEscape_line (by decide), ?_⟩
  exact List.forall_mem_cons.2 ⟨by decide, noEscape_line h⟩

/-- The name of a cause is one of ours. -/
theorem escapeFree_failure {p : Problem} (h : NoEscape p.message) : (failure p).EscapeFree := by
  have hkind : NoEscape p.kind := by
    cases p with
    | marketplace e => cases e <;> simp only [Problem.kind, Error.kind] <;> decide
    | metadataFile | render | terminal =>
      simp only [Problem.kind]
      decide
  exact noEscape_line (Ansi.noEscape_append (Ansi.noEscape_append hkind (by decide)) h)

theorem Clear.escapeFree {e : Event} (h : e.Clear)
    (hfailure : ∀ p, e = .failure p → NoEscape p.message) : e.EscapeFree := by
  cases e with
  | failure p => exact escapeFree_failure (hfailure p rfl)
  | prompt | menu | welcome | heading | record | deploy | unknownChoice => exact h

end Event

end TokenMarket

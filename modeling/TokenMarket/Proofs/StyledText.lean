import TokenMarket.Proofs.Numeral
import TokenMarket.Session.Console
import TokenMarket.Text.Ansi

/-!
# Deleting the sequences of a styled text

A text in colours is sent to a terminal among sequences of control.  `Ansi.strip` deletes
them again.  This module says when that leaves the text as it was.

What a text leaves may depend on the text behind it, since a sequence can begin in the one
and end in the other.  So `Ansi.Leaves` is about a text in front of any other, and
`Leaves.append` puts texts together.

There are three groups.

* Texts.  A sequence leaves nothing, and a text without an escape character leaves itself,
  even if it looks like a sequence otherwise.
* Styles.  A text is `Styled` if there are sequences in front of it and behind it, and
  nothing else.  `Paint.Styles` says this of a paint, and the paint of a session has it.
* Events.  An event without escape characters leaves its plain text, and so does a
  sequence of such events.
-/

namespace TokenMarket

/-! ## Texts -/

namespace Ansi

/-- A text without escape characters. -/
def NoEscape (text : String) : Prop := escape ∉ text.toList

instance (text : String) : Decidable (NoEscape text) :=
  inferInstanceAs (Decidable (escape ∉ text.toList))

/-- What is left of a text in front of any other. -/
def Leaves (cs left : List Char) : Prop := ∀ rest, strip (cs ++ rest) = left ++ strip rest

variable {cs left : List Char}

theorem strip_nil : strip [] = [] := by rw [strip]

theorem strip_of_behind? {rest : List Char} (h : behind? cs = some rest) :
    strip cs = strip rest := by
  cases cs with
  | nil => cases h
  | cons c cs =>
    rw [strip]
    split
    next after hafter =>
      obtain rfl : rest = after := Option.some.inj (h.symm.trans hafter)
      rfl
    next hnone =>
      rw [h] at hnone
      cases hnone

theorem behind?_of_ne {c : Char} (hc : c ≠ escape) (cs : List Char) : behind? (c :: cs) = none := by
  unfold behind?
  split
  next hcons =>
    obtain ⟨rfl, -⟩ := List.cons.inj hcons
    exact if_neg hc
  next => rfl

theorem strip_cons {c : Char} (hc : c ≠ escape) (cs : List Char) :
    strip (c :: cs) = c :: strip cs := by
  rw [strip]
  split
  next after hafter =>
    rw [behind?_of_ne hc] at hafter
    cases hafter
  next => rfl

/-- By itself a text is stripped to what it leaves. -/
theorem Leaves.strip (h : Leaves cs left) : strip cs = left := by
  have hend := h []
  rwa [strip_nil, List.append_nil, List.append_nil] at hend

theorem leaves_nil : Leaves [] [] := fun _ => rfl

theorem Leaves.append {cs' left' : List Char} (h : Leaves cs left) (h' : Leaves cs' left') :
    Leaves (cs ++ cs') (left ++ left') := by
  intro rest
  rw [List.append_assoc, h, h', List.append_assoc]

theorem leaves_sequence (h : IsSequence cs) : Leaves cs [] := fun rest =>
  strip_of_behind? (behind?_append h rest)

theorem leaves_sequences {sequences : List (List Char)} (h : ∀ s ∈ sequences, IsSequence s) :
    Leaves sequences.flatten [] := by
  induction sequences with
  | nil => exact leaves_nil
  | cons s sequences ih =>
    obtain ⟨hs, hsequences⟩ := List.forall_mem_cons.1 h
    exact (leaves_sequence hs).append (ih hsequences)

/-- Without an escape character nothing is deleted, by induction over the text. -/
theorem leaves_self (h : escape ∉ cs) : Leaves cs cs := by
  intro rest
  induction cs with
  | nil => rfl
  | cons c cs ih =>
    obtain ⟨hc, hcs⟩ := List.ne_and_not_mem_of_not_mem_cons h
    rw [List.cons_append, strip_cons hc.symm, ih hcs, List.cons_append]

-- Neither the brackets of the text nor a sequence without its letter are deleted.
example : strip "\x1b[1m[1m;7\x1b[0m \x1b[2".toList = "[1m;7 \x1b[2".toList := by cbv

/-! ## Styles -/

/-- A text between sequences. -/
def Styled (text styled : List Char) : Prop :=
  ∃ before after : List (List Char), (∀ s ∈ before, IsSequence s) ∧ (∀ s ∈ after, IsSequence s)
    ∧ styled = before.flatten ++ text ++ after.flatten

/-- A styled text leaves what the text leaves. -/
theorem Styled.leaves {styled : List Char} (h : Styled cs styled) (hcs : Leaves cs left) :
    Leaves styled left := by
  obtain ⟨before, after, hbefore, hafter, rfl⟩ := h
  have hfront := (leaves_sequences hbefore).append hcs
  have hall := hfront.append (leaves_sequences hafter)
  rwa [List.nil_append, List.append_nil] at hall

end Ansi

/-- The paint puts sequences around a text, and nothing else. -/
def Paint.Styles (paint : Paint) : Prop :=
  ∀ color text, Ansi.Styled text.toList (paint color text).toList

/-- The sequence that switches a colour on. -/
theorem Color.isSequence (color : Color) :
    Ansi.IsSequence ("\x1b[38;5;" ++ Numeral.decimal color.number ++ "m").toList := by
  have hfront : ∀ c ∈ "38;5;".toList, Ansi.isParameter c = true := List.all_eq_true.1 (by decide)
  refine ⟨"38;5;".toList ++ Numeral.digits color.number, ?_, ?_⟩
  · refine List.forall_mem_append.2 ⟨hfront, fun c hc => ?_⟩
    rw [Ansi.isParameter, Numeral.isDigit_of_mem_digits _ c hc, Bool.true_or]
  · simp [Numeral.decimal, Ansi.escape]

/-- Both paints of a session put sequences around a text, or nothing. -/
theorem Paint.styles_of (colored : Bool) : (Paint.of colored).Styles := by
  intro color text
  cases colored with
  | false => exact ⟨[], [], by simp, by simp, by simp [Paint.of, Span.render]⟩
  | true =>
    have hbold : Ansi.IsSequence "\x1b[1m".toList :=
      ⟨['1'], List.forall_mem_singleton.2 (by decide), rfl⟩
    have hreset : Ansi.IsSequence "\x1b[0m".toList :=
      ⟨['0'], List.forall_mem_singleton.2 (by decide), rfl⟩
    refine ⟨[("\x1b[38;5;" ++ Numeral.decimal color.number ++ "m").toList, "\x1b[1m".toList],
      ["\x1b[0m".toList], ?_, ?_, ?_⟩
    · exact List.forall_mem_cons.2 ⟨color.isSequence, List.forall_mem_singleton.2 hbold⟩
    · exact List.forall_mem_singleton.2 hreset
    · simp [Paint.of, Span.render]

/-! ## Events -/

open Ansi (Leaves NoEscape)

/-- No span of the event has an escape character. -/
def Event.EscapeFree (e : Event) : Prop := ∀ s ∈ e.spans, NoEscape s.text

section Events

variable {paint : Paint}

theorem Span.leaves_painted (hpaint : paint.Styles) {s : Span} (h : NoEscape s.text) :
    Leaves (s.painted paint).toList (s.render false).toList := by
  obtain ⟨color, text⟩ := s
  have htext : Leaves text.toList text.toList := Ansi.leaves_self h
  cases color with
  | none => exact htext
  | some color => exact (hpaint color text).leaves htext

/-- Pieces that are joined leave what each of them leaves. -/
theorem leaves_join {α : Type} {painted plain : α → String} {pieces : List α}
    (h : ∀ x ∈ pieces, Leaves (painted x).toList (plain x).toList) :
    Leaves (String.join (pieces.map painted)).toList (String.join (pieces.map plain)).toList := by
  induction pieces with
  | nil => exact Ansi.leaves_nil
  | cons x pieces ih =>
    obtain ⟨hx, hpieces⟩ := List.forall_mem_cons.1 h
    rw [List.map_cons, List.map_cons, String.join_cons, String.join_cons, String.toList_append,
      String.toList_append]
    exact hx.append (ih hpieces)

/-- Events without escape characters leave the plain text. -/
theorem strip_paintEvents (hpaint : paint.Styles) {events : List Event}
    (h : ∀ e ∈ events, e.EscapeFree) :
    Ansi.strip (paintEvents paint events).toList = (renderEvents false events).toList := by
  have hevent : ∀ e ∈ events, Leaves (e.painted paint).toList (e.render false).toList :=
    fun e he => leaves_join fun s hs => Span.leaves_painted hpaint (h e he s hs)
  exact (leaves_join hevent).strip

end Events

end TokenMarket

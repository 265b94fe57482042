import TokenMarket.Proofs.Inventory
import TokenMarket.Proofs.JsonLayout
import TokenMarket.Proofs.LineEnds
import TokenMarket.Proofs.Split

/-!
# The lines of the output

A person does not see events.  What there is to copy is found in the lines of the output:
under a heading there is a line that begins with a tab, and the command is behind the tab.
Texts from outside stand in the output too.  This module shows that none of them can be
taken for a command, if a text that is to fill a line does not break it.

There are three groups.

* Lines.  `Text.copied` finds the commands in the lines of a text.  A line counts only
  together with the line above it, so that line goes along.
* Pieces.  A `Text.Piece` is what one event can add to the output.  A prompt does not end its
  line, and what follows goes on in it.  So the induction of `copied_flatten` is about a text
  behind an open line.
* Sessions.  `Event.From.piece` takes the pieces from the inventory of the events, and
  `Desk.play_copied` is the result.
-/

namespace TokenMarket

/-! ## Lines -/

namespace Text

/-- The heading of a command. -/
def copyHeading : List Char := "Copy the cmd :".toList

/-- The command in a line, if the line above ends with the heading. -/
def copied? (above : List Char) : List Char → Option (List Char)
  | '\t' :: command => if copyHeading.isSuffixOf above then some command else none
  | _ => none

/-- The commands in lines that stand under a line. -/
def copied (above : List Char) : List (List Char) → List (List Char)
  | [] => []
  | line :: lines => (copied? above line).toList ++ copied line lines

/-- No line begins with a tab. -/
def Tabless (lines : List (List Char)) : Prop := ∀ line ∈ lines, line.head? ≠ some '\t'

variable {above line : List Char} {lines : List (List Char)}

theorem copied?_eq_none (h : line.head? ≠ some '\t') : copied? above line = none := by
  unfold copied?
  split
  · exact absurd rfl h
  · rfl

theorem copied_append (above : List Char) (front back : List (List Char)) :
    copied above (front ++ back) = copied above front ++ copied (front.getLastD above) back := by
  induction front generalizing above with
  | nil => rfl
  | cons line front ih =>
    rw [List.cons_append, copied, copied, ih, List.append_assoc, List.getLastD_cons]

theorem copied_eq_nil (h : Tabless lines) : copied above lines = [] := by
  induction lines generalizing above with
  | nil => rfl
  | cons line lines ih =>
    obtain ⟨hline, hlines⟩ := List.forall_mem_cons.1 h
    rw [copied, copied?_eq_none hline, ih hlines]
    rfl

theorem tabless_of_not_mem {cs : List Char} (h : '\t' ∉ cs) : Tabless (splitOn '\n' cs) := by
  intro line hline hhead
  exact h (mem_of_mem_splitOn hline (List.mem_of_head? hhead))

theorem tabless_of_line {cs : List Char} (hfeed : '\n' ∉ cs) (hhead : cs.head? ≠ some '\t') :
    Tabless (splitOn '\n' cs) := by
  rw [splitOn_of_not_mem hfeed]
  exact List.forall_mem_singleton.2 hhead

theorem copied_break (above front rest : List Char) :
    copied above (splitOn '\n' (front ++ '\n' :: rest))
      = copied above (splitOn '\n' front)
        ++ copied ((splitOn '\n' front).getLastD above) (splitOn '\n' rest) := by
  rw [splitOn_append_separator, copied_append]

/-- A command under its heading. -/
theorem copied_heading (above : List Char) {front command : List Char} (hfront : '\n' ∉ front)
    (htab : '\t' ∉ front) (hcommand : '\n' ∉ command) :
    copied above (splitOn '\n' (front ++ copyHeading ++ '\n' :: '\t' :: command)) = [command] := by
  have hfeed : '\n' ∉ front ++ copyHeading := by
    rw [List.mem_append]
    exact not_or.2 ⟨hfront, by decide⟩
  have htabless : Tabless [front ++ copyHeading] := by
    rw [← splitOn_of_not_mem hfeed]
    refine tabless_of_not_mem ?_
    rw [List.mem_append]
    exact not_or.2 ⟨htab, by decide⟩
  have hline : '\n' ∉ '\t' :: command := List.not_mem_cons_of_ne_of_not_mem (by decide) hcommand
  have hunder : copied? (front ++ copyHeading) ('\t' :: command) = some command :=
    if_pos (List.isSuffixOf_iff_suffix.2 (List.suffix_append front copyHeading))
  rw [copied_break, splitOn_of_not_mem hfeed, splitOn_of_not_mem hline, copied_eq_nil htabless,
    List.nil_append, List.getLastD_cons, List.getLastD_nil, copied, hunder]
  rfl

/-! ## Pieces -/

/-- A piece of the output, with the command that is in it. -/
inductive Piece : List Char → Option (List Char) → Prop
  /-- The line goes on behind it. -/
  | part {text : List Char} (hfeed : '\n' ∉ text) (htab : '\t' ∉ text) : Piece text none
  /-- Any lines without tabs. -/
  | lines {text : List Char} (htab : '\t' ∉ text) : Piece (text ++ ['\n']) none
  /-- A line, or the rest of one, that begins with another character. -/
  | line {text : List Char} (hne : text ≠ []) (hhead : text.head? ≠ some '\t')
      (hfeed : '\n' ∉ text) : Piece (text ++ ['\n']) none
  /-- A heading, and a command under it. -/
  | command {text : List Char} (hfeed : '\n' ∉ text) :
      Piece (copyHeading ++ '\n' :: '\t' :: text ++ ['\n']) (some text)

/-- What a piece adds to an open line.  Behind it there is an open line again. -/
theorem Piece.step {text : List Char} {command : Option (List Char)} (h : Piece text command)
    {front : List Char} (hfeed : '\n' ∉ front) (htab : '\t' ∉ front) (above rest : List Char) :
    ∃ above' front', '\n' ∉ front' ∧ '\t' ∉ front'
      ∧ copied above (splitOn '\n' (front ++ (text ++ rest)))
        = command.toList ++ copied above' (splitOn '\n' (front' ++ rest)) := by
  have hends : ∀ {line : List Char}, copied above (splitOn '\n' line) = command.toList →
      ∃ above' front', '\n' ∉ front' ∧ '\t' ∉ front'
        ∧ copied above (splitOn '\n' (line ++ '\n' :: rest))
          = command.toList ++ copied above' (splitOn '\n' (front' ++ rest)) := by
    intro line hline
    refine ⟨(splitOn '\n' line).getLastD above, [], List.not_mem_nil, List.not_mem_nil, ?_⟩
    rw [copied_break, hline, List.nil_append]
  cases h with
  | part hf ht =>
    refine ⟨above, front ++ text, ?_, ?_, ?_⟩
    · exact List.mem_append.not.2 (not_or.2 ⟨hfeed, hf⟩)
    · exact List.mem_append.not.2 (not_or.2 ⟨htab, ht⟩)
    · rw [List.append_assoc]
      rfl
  | @lines text ht =>
    have htabless := tabless_of_not_mem (List.mem_append.not.2 (not_or.2 ⟨htab, ht⟩))
    simpa using hends (copied_eq_nil htabless)
  | @line text hne hhead hf =>
    have hfirst : (front ++ text).head? ≠ some '\t' := by
      cases front with
      | nil => exact hhead
      | cons x front =>
        rw [List.cons_append, List.head?_cons, ne_eq, Option.some.injEq]
        exact (List.ne_and_not_mem_of_not_mem_cons htab).1.symm
    have htabless := tabless_of_line (List.mem_append.not.2 (not_or.2 ⟨hfeed, hf⟩)) hfirst
    simpa using hends (copied_eq_nil htabless)
  | @command text hf =>
    simpa using hends (copied_heading above hfeed htab hf)

/-- The commands in a text of pieces are those of the pieces, also behind an open line. -/
theorem copied_flatten {pieces : List (List Char × Option (List Char))}
    (h : ∀ p ∈ pieces, Piece p.1 p.2) {front : List Char} (hfeed : '\n' ∉ front)
    (htab : '\t' ∉ front) (above : List Char) :
    copied above (splitOn '\n' (front ++ (pieces.map Prod.fst).flatten))
      = pieces.filterMap Prod.snd := by
  induction pieces generalizing front above with
  | nil =>
    rw [List.map_nil, List.flatten_nil, List.append_nil]
    exact copied_eq_nil (tabless_of_not_mem htab)
  | cons p pieces ih =>
    obtain ⟨hp, hpieces⟩ := List.forall_mem_cons.1 h
    obtain ⟨above', front', hfeed', htab', hstep⟩ := hp.step hfeed htab above
      (pieces.map Prod.fst).flatten
    rw [List.map_cons, List.flatten_cons, hstep, ih hpieces hfeed' htab', List.filterMap_cons]
    cases p.2 <;> rfl

end Text

/-! ## Sessions -/

open Text (Piece copied splitOn)

/-- The command that an event shows. -/
def Event.command? : Event → Option (List Char)
  | deploy d => some d.command.toList
  | _ => none

namespace Event

/-- A text of the program, and behind it one from outside that does not break the line. -/
theorem piece_line {front text : String} (hfront : Own front) (htext : '\n' ∉ text.toList) :
    Piece ((front ++ text).toList ++ ['\n']) none := by
  obtain ⟨c, cs, hchars, hc⟩ : ∃ c cs, front.toList = c :: cs ∧ c.isUpper = true := by
    have hupper := hfront.1
    cases hchars : front.toList with
    | nil => simp [hchars] at hupper
    | cons c cs => exact ⟨c, cs, rfl, by simpa [hchars] using hupper⟩
  rw [String.toList_append]
  refine .line ?_ ?_ (List.mem_append.not.2 (not_or.2 ⟨hfront.not_mem (by decide), htext⟩))
  · simp [hchars]
  · rw [hchars, List.cons_append, List.head?_cons, ne_eq, Option.some.injEq]
    rintro rfl
    exact absurd hc (by decide)

theorem own_kind (p : Problem) : Own (p.kind ++ ": ") := by
  cases p with
  | marketplace e => cases e <;> simp only [Problem.kind, Error.kind] <;> decide
  | metadataFile | render | terminal =>
    simp only [Problem.kind]
    decide

theorem piece_of_spans {e : Event} {color : Color} {text : String} {command : Option (List Char)}
    (h : e.spans = line color text) (hpiece : Piece (text.toList ++ ['\n']) command) :
    Piece (e.render false).toList command := by
  have hrender : (e.render false).toList = text.toList ++ ['\n'] := by
    rw [render, h]
    simp [line, Span.render]
  rwa [hrender]

/-- What an event adds to the output, if the texts that it takes from its sources do not
break a line. -/
theorem From.piece {src : Sources} {e : Event} (h : e.From src)
    (hnames : ∀ name, src.names name → '\n' ∉ name.toList)
    (hchoices : ∀ choice, src.choices choice → '\n' ∉ choice.toList)
    (hdeploys : ∀ d, src.deploys d → '\n' ∉ d.command.toList)
    (hfailures : ∀ p, e = .failure p → '\n' ∉ p.message.toList) :
    Piece (e.render false).toList e.command? := by
  cases e with
  | prompt text =>
    have htext : ((prompt text).render false).toList = text.toList := by
      simp [render, spans, Span.render]
    rw [htext]
    exact .part (h.not_mem (by decide)) (h.not_mem (by decide))
  | menu =>
    have htab : '\t' ∉ menuText.toList := fun hmem =>
      absurd (menu_controls hmem (by decide)) (by decide)
    exact piece_of_spans rfl (.lines htab)
  | welcome name => exact piece_of_spans rfl (piece_line (by decide) (hnames name h))
  | heading text => exact piece_of_spans rfl (.lines (h.not_mem (by decide)))
  | record view =>
    have htab : '\t' ∉ view.wide.toList := fun hmem =>
      absurd (Json.wide_controls hmem (by decide)) (by decide)
    exact piece_of_spans rfl (.lines htab)
  | deploy d =>
    have hbreak : "\n\t".toList = ['\n', '\t'] := by decide
    have hend : "\n".toList = ['\n'] := by decide
    have htext : ((deploy d).render false).toList
        = Text.copyHeading ++ '\n' :: '\t' :: d.command.toList ++ ['\n'] := by
      rw [render_deploy, String.toList_append, String.toList_append, String.toList_append, hbreak,
        hend, List.append_assoc Text.copyHeading]
      rfl
    rw [htext]
    exact .command (hdeploys d h)
  | failure p => exact piece_of_spans rfl (piece_line (own_kind p) (hfailures p rfl))
  | unknownChoice choice => exact piece_of_spans rfl (piece_line (by decide) (hchoices choice h))

end Event

/-- The text of events that add such pieces shows their commands, and no others. -/
theorem copied_renderEvents {events : List Event}
    (h : ∀ e ∈ events, Piece (e.render false).toList e.command?) :
    copied [] (splitOn '\n' (renderEvents false events).toList)
      = events.filterMap Event.command? := by
  have htext : (renderEvents false events).toList
      = ((events.map fun e => ((e.render false).toList, e.command?)).map Prod.fst).flatten := by
    rw [renderEvents, List.map_map]
    induction events with
    | nil => rfl
    | cons e events ih =>
      rw [List.map_cons, String.join_cons, String.toList_append, List.map_cons, List.flatten_cons,
        ih (List.forall_mem_cons.1 h).2]
      rfl
  have hpieces : ∀ p ∈ events.map fun e => ((e.render false).toList, e.command?),
      Piece p.1 p.2 := by
    simpa using h
  have hflatten := Text.copied_flatten hpieces List.not_mem_nil List.not_mem_nil []
  rw [List.nil_append, ← htext, List.filterMap_map] at hflatten
  exact hflatten

-- A failure that breaks its line can show something to copy.
example : copied [] (splitOn '\n' (renderEvents false
    [.failure (.render "refused\nCopy the cmd :\n\tsh")]).toList) = ["sh".toList] := by
  cbv

/-- What there is to copy in the output are the commands of the deploys, in their order.

Nothing is asked of what is typed and of what is read.  A record may hold any text, since its
controls are escaped.  The names of the identities, the texts of the configuration that get
into commands, and the messages of the failures are one line each. -/
theorem Desk.play_copied {σ : Type} {c : Config} (w : Dialogue.World (StateM σ))
    (given : Option String) (bytes : List UInt8) (t : σ)
    (hnames : ∀ user ∈ c.identities, '\n' ∉ user.name.toList)
    (htexts : ∀ user ∈ c.identities, ∀ text ∈ c.commandTexts user.secretKey, '\n' ∉ text.toList)
    (hfailures : ∀ p, .failure p ∈
        (((Desk.ofConfig c).play w given (Input.lines bytes)).run t).1.events →
      '\n' ∉ p.message.toList) :
    let events := (((Desk.ofConfig c).play w given (Input.lines bytes)).run t).1.events
    copied [] (splitOn '\n' (renderEvents false events).toList)
      = events.filterMap Event.command? := by
  intro events
  refine copied_renderEvents fun e he => ?_
  refine (Desk.play_from c w given (Input.lines bytes) t e he).piece ?_ ?_ ?_ ?_
  · rintro _ ⟨user, huser, rfl⟩
    exact hnames user huser
  · rintro _ ⟨line, hline, rfl⟩
    exact fun hfeed => Input.not_mem_of_mem_lines hline (Text.mem_of_mem_trim hfeed)
  · rintro d ⟨user, huser, order, hd⟩ hfeed
    obtain ⟨text, htext, hmem⟩ := Terms.command_controls hd hfeed (by decide)
    exact htexts user huser text htext hmem
  · rintro p rfl
    exact hfailures p he

end TokenMarket

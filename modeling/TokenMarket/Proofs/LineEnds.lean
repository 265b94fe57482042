import TokenMarket.Proofs.HashText
import TokenMarket.Proofs.InputText
import TokenMarket.Session.Run

/-!
# Line ends do not matter

A text may have been typed with either of the usual line ends, and its last line may
lack one.  A session cannot tell.  Not every question takes an answer without the blanks
at its ends, so a carriage return has to go before any question sees it.

There are four groups.

* Characters.  A byte of ASCII is a character wherever it stands, also behind bytes that
  are no text (`Utf8.scan_append`).
* Lines.  Marks at the end of a line are not part of its text (`lineText_concat`), and a
  carriage return does not change where the lines are cut (`chunks_withReturns`).  So an
  input has the same lines with either line end, and no line feed is left in any of them.
* Texts.  The bytes of a text with other line ends are its bytes with other line ends.
* Sessions.  A session sees nothing of its input but the lines.  `World.noted` makes a list
  of its reads, and `Desk.notes_play` says that this changes nothing else.
-/

namespace TokenMarket

/-! ## Characters -/

namespace Utf8

variable {b : UInt8}

/-- A byte of ASCII is not taken with the bytes in front of it. -/
theorem following_append {count share low high : Nat} (hlow : count = 0 ∨ 0x80 ≤ low)
    (hb : b.toNat < 0x80) (bytes rest : List UInt8) :
    following count share low high (bytes ++ b :: rest)
      = ((following count share low high bytes).1,
        (following count share low high bytes).2 ++ b :: rest) := by
  induction count generalizing share low high bytes with
  | zero => rfl
  | succ count ih =>
    cases bytes with
    | nil =>
      have hout : ¬ (low ≤ b.toNat ∧ b.toNat ≤ high) := by omega
      exact if_neg hout
    | cons x bytes =>
      rw [List.cons_append, following, following]
      by_cases hrange : low ≤ x.toNat ∧ x.toNat ≤ high
      · rw [if_pos hrange, if_pos hrange, ih (Or.inr (Nat.le_refl _))]
      · rw [if_neg hrange, if_neg hrange]
        rfl

theorem next_append (hb : b.toNat < 0x80) (x : UInt8) (bytes rest : List UInt8) :
    next x (bytes ++ b :: rest) = ((next x bytes).1, (next x bytes).2 ++ b :: rest) := by
  unfold next
  cases hlead : lead? x with
  | none => rfl
  | some l => simp only [following_append (lead?_low hlead) hb]

/-- The bytes can be cut in front of a byte of ASCII. -/
theorem scan_append (hb : b.toNat < 0x80) (bytes rest : List UInt8) :
    scan (bytes ++ b :: rest) = scan bytes ++ scan (b :: rest) := by
  induction bytes using scan.induct with
  | case1 => rw [scan, List.nil_append, List.nil_append]
  | case2 x bytes ih =>
    rw [List.cons_append, scan, next_append hb, ih, ← List.cons_append, ← scan]

/-- A byte of ASCII at the end is one more character. -/
theorem decode?_concat (hb : b.toNat < 0x80) (bytes : List UInt8) :
    decode? (bytes ++ [b]) = (decode? bytes).map (· ++ [Char.ofNat b.toNat]) := by
  have hlead : lead? b = some ⟨0, b.toNat, 0, 0⟩ := if_pos hb
  have hscan : scan [b] = [some (Char.ofNat b.toNat)] := by
    simp [scan, next, hlead, following]
  rw [decode?, decode?, scan_append hb, hscan, List.mapM_append]
  cases (scan bytes).mapM id <;> rfl

end Utf8

/-! ## Lines -/

namespace Input

variable {bytes chunk : List UInt8} {b : UInt8}

theorem dropLineEnd_concat {c : Char} (hc : c = '\n' ∨ c = '\r') (cs : List Char) :
    dropLineEnd (cs ++ [c]) = dropLineEnd cs := by
  have hmark : (c == '\n' || c == '\r') = true := by simpa using hc
  rw [dropLineEnd, dropLineEnd, List.reverse_append, List.reverse_singleton, List.singleton_append,
    List.dropWhile_cons, if_pos hmark]

/-- A mark at the end is not part of the text of a line, whether or not the line has one. -/
theorem lineText_concat (hb : b = 10 ∨ b = 13) (chunk : List UInt8) :
    lineText (chunk ++ [b]) = lineText chunk := by
  have hascii : b.toNat < 0x80 := by rcases hb with rfl | rfl <;> decide
  have hmark : Char.ofNat b.toNat = '\n' ∨ Char.ofNat b.toNat = '\r' := by
    rcases hb with rfl | rfl
    · exact Or.inl rfl
    · exact Or.inr rfl
  rw [lineText, lineText, Utf8.decode?_concat hascii, Option.map_map]
  refine congrArg (Option.map · _) (funext fun cs => ?_)
  rw [Function.comp_apply, dropLineEnd_concat hmark]

/-- The input with a carriage return in front of every line feed. -/
def withReturns (bytes : List UInt8) : List UInt8 :=
  bytes.flatMap fun b => if b = 10 then [13, 10] else [b]

@[simp] theorem withReturns_nil : withReturns [] = [] := rfl

theorem withReturns_cons_lineFeed (bytes : List UInt8) :
    withReturns (10 :: bytes) = 13 :: 10 :: withReturns bytes := rfl

theorem withReturns_cons (hb : b ≠ 10) (bytes : List UInt8) :
    withReturns (b :: bytes) = b :: withReturns bytes := by
  rw [withReturns, List.flatMap_cons, if_neg hb]
  rfl

theorem withReturns_append (front back : List UInt8) :
    withReturns (front ++ back) = withReturns front ++ withReturns back :=
  List.flatMap_append

theorem withReturns_eq_self (h : ∀ x ∈ bytes, x ≠ 10) : withReturns bytes = bytes := by
  induction bytes with
  | nil => rfl
  | cons b bytes ih =>
    obtain ⟨hb, hbytes⟩ := List.forall_mem_cons.1 h
    rw [withReturns_cons hb, ih hbytes]

/-- The lines are cut at the same places. -/
theorem chunks_withReturns (bytes : List UInt8) :
    chunks (withReturns bytes) = (chunks bytes).map withReturns := by
  induction bytes with
  | nil => rfl
  | cons b bytes ih =>
    by_cases hb : b = 10
    · subst hb
      rw [withReturns_cons_lineFeed, chunks, if_neg (by decide), chunks, if_pos rfl, chunks,
        if_pos rfl, ih]
      rfl
    · rw [withReturns_cons hb, chunks, if_neg hb, chunks, if_neg hb, ih]
      cases chunks bytes with
      | nil => simp [withReturns_cons hb]
      | cons chunk rest => simp [withReturns_cons hb]

/-- A line has no line feed but at its end. -/
theorem exists_body_of_mem_chunks (h : chunk ∈ chunks bytes) :
    ∃ body, (∀ x ∈ body, x ≠ 10) ∧ (chunk = body ∨ chunk = body ++ [10]) := by
  induction bytes generalizing chunk with
  | nil => cases h
  | cons b bytes ih =>
    rw [chunks] at h
    by_cases hb : b = 10
    · rw [if_pos hb, List.mem_cons] at h
      rcases h with rfl | h
      · exact ⟨[], List.forall_mem_nil _, Or.inr (congrArg (· :: []) hb)⟩
      · exact ih h
    · rw [if_neg hb] at h
      cases hchunks : chunks bytes with
      | nil =>
        rw [hchunks] at h
        exact ⟨[b], by simpa using hb, Or.inl (List.mem_singleton.1 h)⟩
      | cons first rest =>
        rw [hchunks] at h
        rcases List.mem_cons.1 h with rfl | h
        · obtain ⟨body, hbody, hfirst⟩ := ih (hchunks ▸ List.mem_cons_self)
          refine ⟨b :: body, List.forall_mem_cons.2 ⟨hb, hbody⟩, ?_⟩
          rcases hfirst with rfl | rfl
          · exact Or.inl rfl
          · exact Or.inr rfl
        · exact ih (hchunks ▸ List.mem_cons_of_mem first h)

theorem lineText_withReturns (h : chunk ∈ chunks bytes) :
    lineText (withReturns chunk) = lineText chunk := by
  obtain ⟨body, hbody, rfl | rfl⟩ := exists_body_of_mem_chunks h
  · rw [withReturns_eq_self hbody]
  · have hends : withReturns (body ++ [10]) = body ++ [13] ++ [10] := by
      rw [withReturns_append, withReturns_eq_self hbody, List.append_assoc]
      rfl
    rw [hends, lineText_concat (Or.inl rfl), lineText_concat (Or.inr rfl),
      lineText_concat (Or.inl rfl)]

/-- With carriage returns the lines are the same. -/
theorem lines_withReturns (bytes : List UInt8) : lines (withReturns bytes) = lines bytes := by
  rw [lines, chunks_withReturns, List.map_map]
  exact List.map_congr_left fun chunk hchunk => lineText_withReturns hchunk

example : lines [49, 13, 10, 50, 32, 13, 13, 10] = [some "1", some "2 "] := by
  decide +kernel

/-- A line of input is one line: there is no line feed in its text. -/
theorem not_mem_of_mem_lines {line : String} (h : some line ∈ lines bytes) :
    '\n' ∉ line.toList := by
  obtain ⟨chunk, hchunk, htext⟩ := List.mem_map.1 h
  obtain ⟨body, hbody, hends⟩ := exists_body_of_mem_chunks hchunk
  have hsame : lineText chunk = lineText body := by
    rcases hends with rfl | rfl
    · rfl
    · exact lineText_concat (Or.inl rfl) body
  obtain ⟨cs, hdecode, rfl⟩ := Option.map_eq_some_iff.1 (hsame.symm.trans htext)
  intro hfeed
  rw [String.toList_ofList, dropLineEnd, List.mem_reverse] at hfeed
  have hmem := List.mem_reverse.1 ((List.dropWhile_sublist _).mem hfeed)
  exact hbody 10 (Utf8.lineFeed_mem hdecode hmem) rfl

/-- The input has a last line, and it is not ended.  In other inputs a line feed more is a
line more. -/
def Open (bytes : List UInt8) : Prop := ∃ b, bytes.getLast? = some b ∧ b ≠ 10

/-- A line feed behind an open line becomes a part of it.  The induction goes over the lines
in front. -/
theorem chunks_concat (h : Open bytes) :
    ∃ front last, chunks bytes = front ++ [last]
      ∧ chunks (bytes ++ [10]) = front ++ [last ++ [10]] := by
  obtain ⟨b, hlast, hb⟩ := h
  induction bytes with
  | nil => cases hlast
  | cons x bytes ih =>
    by_cases hnil : bytes = []
    · subst hnil
      obtain rfl : x = b := Option.some.inj hlast
      exact ⟨[], [x], by simp [chunks, hb], by simp [chunks, hb]⟩
    · rw [List.getLast?_cons_of_ne_nil hnil] at hlast
      obtain ⟨front, last, hchunks, hconcat⟩ := ih hlast
      rw [List.cons_append, chunks, chunks, hchunks, hconcat]
      by_cases hx : x = 10
      · rw [if_pos hx, if_pos hx]
        exact ⟨[x] :: front, last, rfl, rfl⟩
      · rw [if_neg hx, if_neg hx]
        cases front with
        | nil => exact ⟨[], x :: last, rfl, rfl⟩
        | cons first front => exact ⟨(x :: first) :: front, last, rfl, rfl⟩

/-- An open line may as well be ended. -/
theorem lines_concat (h : Open bytes) : lines (bytes ++ [10]) = lines bytes := by
  obtain ⟨front, last, hchunks, hconcat⟩ := chunks_concat h
  rw [lines, lines, hchunks, hconcat, List.map_append, List.map_append, List.map_singleton,
    List.map_singleton, lineText_concat (Or.inl rfl)]

end Input

/-! ## Texts -/

namespace Text

/-- The text with a carriage return in front of every line feed. -/
def withReturns (cs : List Char) : List Char :=
  cs.flatMap fun c => if c = '\n' then ['\r', '\n'] else [c]

/-- The text has a last line, and it is not ended. -/
def Open (cs : List Char) : Prop := ∃ c, cs.getLast? = some c ∧ c ≠ '\n'

end Text

namespace Utf8

variable {c : Char} {cs : List Char}

/-- Only a line feed has the byte of a line feed. -/
theorem ne_of_mem_utf8EncodeChar (hc : c ≠ '\n') : ∀ b ∈ String.utf8EncodeChar c, b ≠ 10 := by
  intro b hb
  rintro rfl
  rcases Nat.lt_or_ge c.toNat 128 with hlt | hge
  · rw [utf8EncodeChar_ascii hlt, List.mem_singleton] at hb
    have hcode : byteChar (UInt8.ofNat c.toNat) = c := byteChar_ofNat hlt
    rw [← hb] at hcode
    exact hc hcode.symm
  · exact absurd (le_of_mem_utf8EncodeChar hge 10 hb) (by decide)

theorem encode_withReturns (cs : List Char) :
    encode (Text.withReturns cs) = Input.withReturns (encode cs) := by
  induction cs with
  | nil => rfl
  | cons c cs ih =>
    have hfront : encode (if c = '\n' then ['\r', '\n'] else [c])
        = Input.withReturns (String.utf8EncodeChar c) := by
      by_cases hc : c = '\n'
      · subst hc
        rfl
      · rw [if_neg hc, Input.withReturns_eq_self (ne_of_mem_utf8EncodeChar hc), encode,
          List.flatMap_singleton]
    rw [Text.withReturns, List.flatMap_cons, ← Text.withReturns, encode, List.flatMap_append,
      ← encode, ← encode, ih, hfront, ← Input.withReturns_append]
    rfl

theorem open_encode (h : Text.Open cs) : Input.Open (encode cs) := by
  obtain ⟨c, hlast, hc⟩ := h
  obtain ⟨front, rfl⟩ := List.getLast?_eq_some_iff.1 hlast
  obtain ⟨b, hb⟩ : ∃ b, (String.utf8EncodeChar c).getLast? = some b :=
    Option.isSome_iff_exists.1 (by simp [String.utf8EncodeChar_ne_nil])
  refine ⟨b, ?_, ne_of_mem_utf8EncodeChar hc b (List.mem_of_getLast? hb)⟩
  rw [encode, List.flatMap_append, List.flatMap_singleton, List.getLast?_append, hb, Option.some_or]

end Utf8

/-! ## Sessions -/

/-- The world with a list of the reads, in order. -/
def Dialogue.World.noted {m : Type → Type} [Monad m] (w : Dialogue.World m) :
    Dialogue.World (StateT (List Read) m) where
  reader q := ExceptT.mk do
    modify (· ++ [q])
    (w.reader q).run
  file := w.file

section Noted

variable {m : Type → Type} [Monad m] {α β : Type}

/-- The computation with a list of reads is the one without, whatever was read before. -/
def Notes (x : StateT (List Read) m α) (y : m α) : Prop :=
  ∀ log, x.run' log = y

variable [LawfulMonad m]

theorem notes_pure (a : α) : Notes (pure a) (pure a : m α) := by
  intro log
  rw [StateT.run'_eq, StateT.run_pure, map_pure]

theorem notes_bind {x : StateT (List Read) m α} {y : m α} {f : α → StateT (List Read) m β}
    {g : α → m β} (hx : Notes x y) (hf : ∀ a, Notes (f a) (g a)) : Notes (x >>= f) (y >>= g) := by
  intro log
  have hrest : ∀ p : α × List Read, Prod.fst <$> (f p.1).run p.2 = g p.1 := fun p => hf p.1 p.2
  rw [← hx log, StateT.run'_eq, StateT.run'_eq, StateT.run_bind, map_bind, bind_map_left]
  exact bind_congr hrest

/-- The list does not change how a dialogue goes. -/
theorem Dialogue.notes_run (w : World m) (d : Dialogue α) (input : List InputLine) :
    Notes (d.run w.noted input) (d.run w input) := by
  induction d generalizing input with
  | done a => exact notes_pure _
  | say e next ih => exact notes_bind (ih input) fun r => notes_pure _
  | ask prompt next ih =>
    cases input with
    | nil => exact notes_bind (ih none []) fun r => notes_pure _
    | cons line rest =>
      cases line with
      | none => exact notes_pure _
      | some line => exact notes_bind (ih (some line) rest) fun r => notes_pure _
  | file path next ih => exact ih _ input
  | read q next ih =>
    refine notes_bind ?_ fun answer => ih answer input
    intro log
    simp [World.noted]

/-- Nor does it change a session.  The induction is on the lines that are left. -/
theorem Session.notes_play (w : Dialogue.World m) (s : Session) (input : List InputLine) :
    Notes (s.play w.noted input) (s.play w input) := by
  induction hlength : input.length using Nat.strongRecOn generalizing input with
  | ind n ih =>
    rw [play, play]
    refine notes_bind (Dialogue.notes_run w s.turn input) fun r => ?_
    split
    · exact notes_pure _
    · exact notes_pure _
    · split
      next hshorter =>
        exact notes_bind (ih _ (hlength ▸ hshorter) r.rest rfl) fun t => notes_pure _
      next => exact notes_pure _

theorem Desk.notes_play (d : Desk) (w : Dialogue.World m) (given : Option String)
    (input : List InputLine) : Notes (d.play w.noted given input) (d.play w given input) := by
  rw [play, play]
  refine notes_bind (Dialogue.notes_run w (d.login given) input) fun r => ?_
  split
  · exact notes_pure _
  · exact notes_pure _
  · exact notes_bind (Session.notes_play w _ r.rest) fun t => notes_pure _

end Noted

namespace Desk

variable {m : Type → Type} [Monad m]

/-- Nobody can tell from a session which of the two inputs it was played on: it is given the
same lines, shows the same, ends in the same way, and makes the same reads. -/
structure Alike (d : Desk) (w : Dialogue.World m) (given : Option String)
    (input other : List UInt8) : Prop where
  lines : Input.lines input = Input.lines other
  play : d.play w given (Input.lines input) = d.play w given (Input.lines other)
  reads : (d.play w.noted given (Input.lines input)).run []
    = (d.play w.noted given (Input.lines other)).run []

theorem alike_of_lines {d : Desk} {w : Dialogue.World m} {given : Option String}
    {input other : List UInt8} (h : Input.lines input = Input.lines other) :
    d.Alike w given input other where
  lines := h
  play := by rw [h]
  reads := by rw [h]

/-- What is said of the line ends of an input. -/
structure LineEndsFree (d : Desk) (w : Dialogue.World m) (given : Option String) : Prop where
  /-- Each line may end with a carriage return and a line feed. -/
  returns : ∀ input, d.Alike w given (Input.withReturns input) input
  /-- The last line may be ended. -/
  final : ∀ input, Input.Open input → d.Alike w given (input ++ [10]) input
  /-- So it is with inputs that are texts. -/
  text_returns : ∀ text,
    d.Alike w given (Utf8.encode (Text.withReturns text)) (Utf8.encode text)
  text_final : ∀ text, Text.Open text →
    d.Alike w given (Utf8.encode (text ++ ['\n'])) (Utf8.encode text)

/-- Line ends do not matter to a session. -/
theorem play_lineEnds (c : Config) (w : Dialogue.World m) (given : Option String) :
    (ofConfig c).LineEndsFree w given where
  returns input := alike_of_lines (Input.lines_withReturns input)
  final input hopen := alike_of_lines (Input.lines_concat hopen)
  text_returns text := by
    rw [Utf8.encode_withReturns]
    exact alike_of_lines (Input.lines_withReturns (Utf8.encode text))
  text_final text hopen := by
    have hbytes : Utf8.encode (text ++ ['\n']) = Utf8.encode text ++ [10] := List.flatMap_append
    rw [hbytes]
    exact alike_of_lines (Input.lines_concat (Utf8.open_encode hopen))

end Desk

end TokenMarket

import TokenMarket.Session.Input

/-!
# The lines of a text are texts

Input is cut into lines as bytes, before anything is decoded.  If the bytes are
well-formed as a whole, then so is every line: a line feed is a character of its
own, and no cut behind one goes through another character.

There are two groups.

* Characters.  `next_split` takes the first character off, together with its bytes.
  These do not depend on what follows, and none of them but the character itself
  is a line feed.  `lineFeed_mem` is the other direction: where a line feed is read there
  is its byte, since the announcements rule out overlong forms.
* Lines.  `chunks_append` says how bytes without a line feed go into the first
  line, and `isSome_of_mem_lines` is the result.
-/

namespace TokenMarket

/-! ## Characters -/

namespace Utf8

variable {b : UInt8} {bytes rest : List UInt8} {c : Char}

/-- The bytes that follow a first byte are taken off, whatever is behind them.
They are no bytes of ASCII. -/
theorem following_split {count share low high code : Nat} (hlow : count = 0 ∨ 0x80 ≤ low)
    (h : following count share low high bytes = (some code, rest)) :
    ∃ tail, bytes = tail ++ rest ∧ (∀ x ∈ tail, 0x80 ≤ x.toNat)
      ∧ ∀ other, following count share low high (tail ++ other) = (some code, other) := by
  induction count generalizing share low high bytes with
  | zero =>
    obtain ⟨hcode, rfl⟩ := Prod.mk.inj h
    exact ⟨[], rfl, by simp, fun other => by rw [List.nil_append, following, ← hcode]⟩
  | succ count ih =>
    cases bytes with
    | nil => simp [following] at h
    | cons b bytes =>
      rw [following] at h
      by_cases hrange : low ≤ b.toNat ∧ b.toNat ≤ high
      · rw [if_pos hrange] at h
        obtain ⟨tail, rfl, htail, hother⟩ := ih (Or.inr (Nat.le_refl _)) h
        have hb : 0x80 ≤ b.toNat := by omega
        refine ⟨b :: tail, rfl, List.forall_mem_cons.2 ⟨hb, htail⟩, ?_⟩
        intro other
        rw [List.cons_append, following, if_pos hrange, hother]
      · rw [if_neg hrange] at h
        simp at h

/-- A first byte announces bytes beyond ASCII, if any. -/
theorem lead?_low {l : Lead} (h : lead? b = some l) : l.following = 0 ∨ 0x80 ≤ l.low := by
  unfold lead? at h
  grind

theorem lead?_lineFeed : lead? 10 = some ⟨0, 10, 0, 0⟩ := by decide

/-- A character is taken off, whatever is behind its bytes.  A line feed is one byte,
and there is none in the bytes of another character. -/
theorem next_split (h : next b bytes = (some c, rest)) :
    ∃ tail, bytes = tail ++ rest ∧ (b = 10 → tail = []) ∧ (∀ x ∈ tail, x ≠ 10)
      ∧ ∀ other, next b (tail ++ other) = (some c, other) := by
  unfold next at h
  split at h
  · simp at h
  next l hlead =>
    obtain ⟨hchar, hrest⟩ := Prod.mk.inj h
    obtain ⟨code, hcode, rfl⟩ := Option.map_eq_some_iff.1 hchar
    have htaken : following l.following l.share l.low l.high bytes = (some code, rest) :=
      Prod.ext hcode hrest
    obtain ⟨tail, rfl, htail, hother⟩ := following_split (lead?_low hlead) htaken
    refine ⟨tail, rfl, ?_, ?_, ?_⟩
    · intro hfeed
      subst hfeed
      obtain rfl : (⟨0, 10, 0, 0⟩ : Lead) = l := Option.some.inj (lead?_lineFeed.symm.trans hlead)
      exact List.append_left_eq_self.1 hrest
    · intro x hx hfeed
      subst hfeed
      exact absurd (htail 10 hx) (by decide)
    · intro other
      simp only [next, hlead, hother, Option.map_some]

/-- A code of several bytes is at least what the second byte can make of the first. -/
theorem le_following {count share low high code : Nat}
    (h : following (count + 1) share low high bytes = (some code, rest)) :
    64 * share + (low - 0x80) ≤ code := by
  induction count generalizing share low high bytes with
  | zero =>
    cases bytes with
    | nil => simp [following] at h
    | cons b bytes =>
      simp only [following] at h
      split at h
      · obtain ⟨hcode, -⟩ := Prod.mk.inj h
        have hcode := Option.some.inj hcode
        omega
      · simp at h
  | succ count ih =>
    cases bytes with
    | nil => simp [following] at h
    | cons b bytes =>
      rw [following] at h
      split at h
      · have hcode := ih h
        omega
      · simp at h

/-- A byte of ASCII is its own code.  Another first byte announces a code beyond the
controls. -/
theorem lead?_share {l : Lead} (h : lead? b = some l) :
    (l.following = 0 ∧ l.share = b.toNat)
      ∨ (l.following ≠ 0 ∧ 16 ≤ 64 * l.share + (l.low - 0x80)) := by
  simp only [lead?] at h
  repeat' split at h
  all_goals cases h
  all_goals
    dsimp only
    omega

theorem ofNat_lineFeed {code : Nat} (h : Char.ofNat code = '\n') : code = 10 := by
  by_cases hvalid : code.isValidChar
  · rw [Char.ofNat, dif_pos hvalid] at h
    exact congrArg Char.toNat h
  · rw [Char.ofNat, dif_neg hvalid] at h
    exact absurd h (by decide)

/-- Only the byte of a line feed is read as one. -/
theorem next_lineFeed (h : next b bytes = (some '\n', rest)) : b = 10 := by
  unfold next at h
  split at h
  · simp at h
  next l hlead =>
    obtain ⟨hchar, hrest⟩ := Prod.mk.inj h
    obtain ⟨code, hcode, hfeed⟩ := Option.map_eq_some_iff.1 hchar
    obtain rfl := ofNat_lineFeed hfeed
    have htaken : following l.following l.share l.low l.high bytes = (some 10, rest) :=
      Prod.ext hcode hrest
    rcases lead?_share hlead with ⟨hnone, hshare⟩ | ⟨hsome, hbound⟩
    · rw [hnone, following, hshare] at htaken
      exact UInt8.toNat_inj.1 (Option.some.inj (Prod.mk.inj htaken).1)
    · obtain ⟨count, hcount⟩ := Nat.exists_eq_succ_of_ne_zero hsome
      rw [hcount] at htaken
      have hcode := le_following htaken
      omega

/-- The parts of a text are its characters. -/
theorem scan_of_decode? {cs : List Char} (h : decode? bytes = some cs) :
    scan bytes = cs.map some := by
  rw [decode?] at h
  generalize scan bytes = parts at *
  induction parts generalizing cs with
  | nil =>
    obtain rfl : [] = cs := Option.some.inj h
    rfl
  | cons part parts ih =>
    rw [List.mapM_cons] at h
    obtain ⟨c, hc, hrest⟩ := Option.bind_eq_some_iff.1 h
    obtain ⟨cs', hcs', hcons⟩ := Option.bind_eq_some_iff.1 hrest
    obtain rfl : c :: cs' = cs := Option.some.inj hcons
    rw [ih hcs', List.map_cons]
    exact congrArg (· :: _) hc

/-- Where a line feed is read, there is its byte. -/
theorem lineFeed_mem {cs : List Char} (h : decode? bytes = some cs) (hmem : '\n' ∈ cs) :
    10 ∈ bytes := by
  have hscan := scan_of_decode? h
  clear h
  induction bytes using scan.induct generalizing cs with
  | case1 =>
    rw [scan] at hscan
    rw [List.map_eq_nil_iff.1 hscan.symm] at hmem
    cases hmem
  | case2 b bytes ih =>
    rw [scan] at hscan
    obtain ⟨c, cs', rfl, hc, hrest⟩ := List.map_eq_cons_iff.1 hscan.symm
    have hnext : next b bytes = (some c, (next b bytes).2) := Prod.ext hc.symm rfl
    rcases List.mem_cons.1 hmem with rfl | hmem
    · rw [next_lineFeed hnext]
      exact List.mem_cons_self
    · obtain ⟨tail, hbytes, -⟩ := next_split hnext
      have hten := ih hmem hrest.symm
      rw [hbytes]
      exact List.mem_cons_of_mem b (List.mem_append_right tail hten)

/-- Every part of the bytes is a character. -/
def WellFormed (bytes : List UInt8) : Prop := ∀ part ∈ scan bytes, part.isSome

theorem isSome_decode?_iff : (decode? bytes).isSome ↔ WellFormed bytes := by
  rw [decode?, WellFormed]
  induction scan bytes with
  | nil => simp
  | cons part parts ih =>
    cases part with
    | none => simp [List.mapM_cons]
    | some c =>
      rw [List.forall_mem_cons, ← ih]
      cases hrest : parts.mapM id <;> simp [List.mapM_cons, hrest]

theorem wellFormed_nil : WellFormed [] := by simp [WellFormed, scan]

/-- A character in front of well-formed bytes. -/
theorem wellFormed_cons (h : next b bytes = (some c, rest)) :
    WellFormed (b :: bytes) ↔ WellFormed rest := by
  rw [WellFormed, scan, h]
  simp [WellFormed]

end Utf8

/-! ## Lines -/

namespace Input

open Utf8 (WellFormed)

/-- Bytes without a line feed go in front of the first line. -/
theorem chunks_append {front : List UInt8} (hne : front ≠ []) (h : ∀ x ∈ front, x ≠ 10)
    (rest : List UInt8) :
    chunks (front ++ rest) = (front ++ (chunks rest).headD []) :: (chunks rest).tail := by
  induction front with
  | nil => exact absurd rfl hne
  | cons b front ih =>
    obtain ⟨hb, hfront⟩ := List.forall_mem_cons.1 h
    rw [List.cons_append, chunks, if_neg hb]
    by_cases hnil : front = []
    · subst hnil
      cases hchunks : chunks rest <;> simp [hchunks]
    · rw [ih hnil hfront]
      rfl

/-- The induction takes one character after the other. -/
theorem wellFormed_of_mem_chunks {bytes : List UInt8} (h : WellFormed bytes) :
    ∀ chunk ∈ chunks bytes, WellFormed chunk := by
  induction hlength : bytes.length using Nat.strongRecOn generalizing bytes with
  | ind n ih =>
    cases bytes with
    | nil => exact fun chunk hchunk => absurd hchunk List.not_mem_nil
    | cons b bytes =>
      obtain ⟨c, hc⟩ : ∃ c, (Utf8.next b bytes).1 = some c := by
        rw [WellFormed, Utf8.scan] at h
        exact Option.isSome_iff_exists.1 (h _ List.mem_cons_self)
      obtain ⟨rest, hnext⟩ : ∃ rest, Utf8.next b bytes = (some c, rest) := ⟨_, Prod.ext hc rfl⟩
      obtain ⟨tail, rfl, hfeed, htail, hother⟩ := Utf8.next_split hnext
      have hrest : ∀ chunk ∈ chunks rest, WellFormed chunk := by
        refine ih rest.length ?_ ((Utf8.wellFormed_cons hnext).1 h) rfl
        simp only [List.length_cons, List.length_append] at hlength
        omega
      by_cases hb : b = 10
      · obtain rfl := hfeed hb
        subst hb
        rw [List.nil_append, chunks, if_pos rfl]
        exact List.forall_mem_cons.2
          ⟨(Utf8.wellFormed_cons (hother [])).2 Utf8.wellFormed_nil, hrest⟩
      · rw [← List.cons_append, chunks_append (by simp) (List.forall_mem_cons.2 ⟨hb, htail⟩)]
        refine List.forall_mem_cons.2
          ⟨?_, fun chunk hchunk => hrest chunk (List.mem_of_mem_tail hchunk)⟩
        have hhead : WellFormed ((chunks rest).headD []) := by
          cases hchunks : chunks rest with
          | nil => exact Utf8.wellFormed_nil
          | cons chunk others => exact hrest chunk (hchunks ▸ List.mem_cons_self)
        exact (Utf8.wellFormed_cons (hother _)).2 hhead

/-- If the input is a text, then so is every line of it. -/
theorem isSome_of_mem_lines {bytes : List UInt8} (h : (Utf8.decode? bytes).isSome) :
    ∀ line ∈ lines bytes, line.isSome := by
  intro line hline
  obtain ⟨chunk, hchunk, rfl⟩ := List.mem_map.1 hline
  have hdecode := wellFormed_of_mem_chunks (Utf8.isSome_decode?_iff.1 h) chunk hchunk
  rw [lineText, Option.isSome_map]
  exact Utf8.isSome_decode?_iff.2 hdecode

end Input

end TokenMarket

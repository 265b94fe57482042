import TokenMarket.Http.Address
import TokenMarket.Text.Hex
import TokenMarket.Text.Utf8

/-!
# Exchanges of messages

One message goes out and one answer comes back over a connection that is
closed afterwards.  `request` writes the message.  `Response.read` reads the
answer from the bytes that have arrived so far, and tells whether more of
them are needed.

The head of an answer says how its body ends: with the last of a sequence
of chunks, after a number of bytes, or with the connection.  An answer that
the connection cuts short is broken.
-/

namespace TokenMarket.Http

/-- The bytes of a message that posts a JSON text. -/
def request (a : Address) (body : String) : List UInt8 :=
  let content := Utf8.encode body.toList
  let head := [
    "POST " ++ a.target ++ " HTTP/1.1",
    "Host: " ++ a.authority,
    "Content-Type: application/json",
    "Accept: */*",
    "Content-Length: " ++ Numeral.decimal content.length,
    "Connection: close"]
  Utf8.encode (head.flatMap fun line => line.toList ++ ['\r', '\n']) ++ [13, 10] ++ content

/-- How far the reading of an answer has come. -/
inductive Progress (α : Type) where
  /-- More bytes have to arrive. -/
  | partly
  /-- This is no answer, whatever arrives. -/
  | broken
  | complete (result : α)
deriving DecidableEq, Repr

/-- An answer. -/
structure Response where
  status : Nat
  /-- The text of the body, with U+FFFD for bytes that are no text. -/
  body : String
deriving DecidableEq, Repr

/-- The head of an answer. -/
structure Head where
  status : Nat
  /-- The fields, with their names in lower case and their values without
  the blanks around them. -/
  fields : List (String × String)
deriving DecidableEq, Repr

/-- How the body of an answer ends. -/
inductive Framing where
  | empty
  | chunked
  | sized (count : Nat)
  /-- With the connection. -/
  | untilClosed
deriving DecidableEq, Repr

/-! ## Lines -/

/-- Splits the bytes at the end of their first line. -/
def splitLine? : List UInt8 → Option (List UInt8 × List UInt8)
  | 13 :: 10 :: rest => some ([], rest)
  | b :: rest => (splitLine? rest).map fun (line, rest) => (b :: line, rest)
  | [] => none

/-- A line is shorter than what it was split from. -/
theorem splitLine?_length {bytes line rest : List UInt8}
    (h : splitLine? bytes = some (line, rest)) : rest.length < bytes.length := by
  fun_induction splitLine? bytes generalizing line rest with
  | case1 tail =>
    obtain ⟨rfl, rfl⟩ := by simpa using h
    simp only [List.length_cons]
    omega
  | case2 b tail _ ih =>
    obtain ⟨⟨l, r⟩, hs, he⟩ := Option.map_eq_some_iff.1 h
    obtain ⟨_, rfl⟩ := by simpa using he
    have := ih hs
    simp only [List.length_cons]
    omega
  | case3 => simp at h

/-- The lines before the first empty one, and what follows it. -/
def headLines? (bytes : List UInt8) : Option (List String × List UInt8) :=
  match _ : splitLine? bytes with
  | none => none
  | some ([], rest) => some ([], rest)
  | some (line, rest) =>
    (headLines? rest).map fun (lines, body) =>
      (String.ofList (Utf8.decodeLossy line) :: lines, body)
termination_by bytes.length
decreasing_by
  rename_i h
  exact splitLine?_length h

/-! ## The head -/

/-- The status in the first line of a head. -/
def statusOf? (line : String) : Option Nat :=
  match Text.splitOn ' ' line.toList with
  | version :: status :: _ =>
    if (Text.dropLead? "HTTP/1.".toList version).isSome ∧ status.length = 3 then
      Numeral.read? status
    else none
  | _ => none

/-- A field of a head: its name in lower case, and its value. -/
def fieldOf? (line : String) : Option (String × String) :=
  let cs := line.toList
  match cs.dropWhile (· != ':') with
  | ':' :: value =>
    some (String.ofList ((cs.takeWhile (· != ':')).map Char.toLower),
      String.ofList (Text.trimBoth value))
  | _ => none

/-- The head in its lines. -/
def Head.ofLines? : List String → Option Head
  | [] => none
  | first :: rest => do
    let status ← statusOf? first
    let fields ← rest.mapM fieldOf?
    return ⟨status, fields⟩

/-- How the body ends that follows a head. -/
def Head.framing? (h : Head) : Option Framing :=
  if h.status = 204 ∨ h.status = 304 then some .empty
  else
    match h.fields.lookup "transfer-encoding", h.fields.lookup "content-length" with
    | some coding, _ =>
      if coding.toList.map Char.toLower = "chunked".toList then some .chunked else none
    | none, some count => (Numeral.read? count.toList).map .sized
    | none, none => some .untilClosed

/-! ## The body -/

/-- The size of a chunk, from the line in front of it. -/
def chunkSize? (line : List UInt8) : Option Nat :=
  let digits := Text.trimBoth ((Utf8.decodeLossy line).takeWhile (· != ';'))
  if digits = [] then none
  else (digits.mapM Hex.digitValue?).map (·.foldl (fun n d => 16 * n + d) 0)

/-- Puts bytes in front of a body that is being read. -/
def Progress.after (content : List UInt8) : Progress (List UInt8) → Progress (List UInt8)
  | complete rest => complete (content ++ rest)
  | p => p

/-- The content of a sequence of chunks. -/
def chunks (bytes : List UInt8) : Progress (List UInt8) :=
  match _ : splitLine? bytes with
  | none => .partly
  | some (line, rest) =>
    match chunkSize? line with
    | none => .broken
    | some 0 => if (headLines? rest).isSome then .complete [] else .partly
    | some size =>
      match rest.drop size with
      | 13 :: 10 :: more =>
        if more.length < bytes.length then (chunks more).after (rest.take size) else .broken
      | [] | [13] => .partly
      | _ => .broken
termination_by bytes.length

/-- The content of a body. -/
def bodyOf (framing : Framing) (closed : Bool) (bytes : List UInt8) : Progress (List UInt8) :=
  match framing with
  | .empty => .complete []
  | .chunked => chunks bytes
  | .sized count => if count ≤ bytes.length then .complete (bytes.take count) else .partly
  | .untilClosed => if closed then .complete bytes else .partly

/-! ## The answer -/

namespace Response

/-- Reads an answer from what has arrived, while more may arrive. -/
def readOpen (closed : Bool) (bytes : List UInt8) : Progress Response :=
  match headLines? bytes with
  | none => .partly
  | some (lines, rest) =>
    match Head.ofLines? lines with
    | none => .broken
    | some head =>
      match head.framing? with
      | none => .broken
      | some framing =>
        match bodyOf framing closed rest with
        | .partly => .partly
        | .broken => .broken
        | .complete content =>
          .complete ⟨head.status, String.ofList (Utf8.decodeLossy content)⟩

/-- Reads an answer from what has arrived.  Once the connection is closed
nothing is partly read any more. -/
def read (closed : Bool) (bytes : List UInt8) : Progress Response :=
  match readOpen closed bytes, closed with
  | .partly, true => .broken
  | progress, _ => progress

end Response

end TokenMarket.Http

import TokenMarket.Proofs.EnvelopeText
import TokenMarket.Proofs.Error
import TokenMarket.Proofs.JsonWord
import TokenMarket.Rpc.Node

/-!
# What an answer is taken for

A question to a remote node can fail in four ways that call for different
actions: there is nothing under the key, the node refuses, the node cannot
be asked, or it answers with something else.  Which of them it is depends on
the status, on whether the body is an envelope, on its error and on its
result, and these can contradict each other.

This module says for each of the four exactly when it is told, and when a
value is.  The conditions speak of what was received and not of the order in
which it is looked at.

There are four groups.

* What was received.  `Outcome.Reads` is the status of an answer together
  with the envelope in its body, and the conditions of `ToldApart` are stated
  with it.  `reads_written` says which bodies have which envelope.
  `RemoteError.Denies` says where the mark for a missing value may
  stand; `saysMissing_iff` ties it to the search in the text of the data.
* The decision.  `toldApart` goes through what can be received, once for both
  kinds of question.
* Roots.  `rootOf_eq_ok_iff` says from which answers a root is had, and `rootOf_cases` what
  there is instead.
* The node.  `lookup_toldApart` is the result for values, and `currentRoot_toldApart` the one
  for roots.
-/

namespace TokenMarket.Rpc

/-! ## What was received -/

/-- There was no answer. -/
def Outcome.NoAnswer (o : Outcome) : Prop :=
  ∀ status body, o ≠ .response status body

/-- There was an answer of this status with this envelope in its body, or
with none. -/
def Outcome.Reads (o : Outcome) (status : Nat) (envelope : Option Envelope) : Prop :=
  ∃ body, o = .response status body ∧ Envelope.parse? body = envelope

/-- A body with the members of an envelope has that envelope. -/
theorem Outcome.reads_written {e : Envelope} {members : List (String × Json)}
    (h : e.Written members) (status : Nat) :
    (response status (Json.object members).compact).Reads status (some e) :=
  ⟨_, rfl, h.parse?_compact⟩

/-- The status of an answer says that all went well. -/
def Success (status : Nat) : Prop := 200 ≤ status ∧ status ≤ 299

/-- There was an error in the envelope, whatever else there was. -/
def Outcome.Reports (o : Outcome) (e : RemoteError) : Prop :=
  ∃ status result, o.Reads status (some ⟨result, some e⟩)

/-- The error says that there is nothing under the key: the mark stands in
its message, or in a string or a member name of its data. -/
def RemoteError.Denies (e : RemoteError) : Prop :=
  missingMark.toList <:+: e.message.toList
    ∨ ∃ data, e.data = some data ∧ data.anyText mentionsMissing = true

/-- The stored value in a result, which has to be an object. -/
def StoredObject (result stored : Json) : Prop :=
  result.get? "stored_value" = some stored ∧ stored.isObject = true

/-- The node could not be asked. -/
def Outcome.Unavailable (o : Outcome) : Prop :=
  o.NoAnswer ∨ ∃ status, ¬ Success status
    ∧ (o.Reads status none ∨ ∃ result, o.Reads status (some ⟨result, none⟩))

/-- An answer of success is not what was asked for.  What has to be in the
stored value is up to the question. -/
def Outcome.Malformed {α : Type} (o : Outcome) (content : Json → Option α) : Prop :=
  ∃ status, Success status
    ∧ (o.Reads status none ∨ o.Reads status (some ⟨none, none⟩)
      ∨ ∃ result, o.Reads status (some ⟨some result, none⟩)
        ∧ ∀ stored, StoredObject result stored → content stored = none)

/-- An answer of success holds the value. -/
def Outcome.Holds {α : Type} (o : Outcome) (content : Json → Option α) (value : α) : Prop :=
  ∃ status result stored, Success status ∧ o.Reads status (some ⟨some result, none⟩)
    ∧ StoredObject result stored ∧ content stored = some value

/-- An answer to a question tells apart what was received. -/
structure ToldApart {α : Type} (o : Outcome) (dictionary key : String)
    (content : Json → Option α) (answer : Except Error α) : Prop where
  notFound : ∀ d k, answer = .error (.notFound d k)
    ↔ (d = dictionary ∧ k = key) ∧ ∃ e, o.Reports e ∧ e.Denies
  rejected : ∀ code message, answer = .error (.nodeRejected code message)
    ↔ ∃ e, o.Reports e ∧ ¬ e.Denies ∧ e.code = code ∧ e.message = message
  unavailable : (∃ reason, answer = .error (.nodeUnavailable reason)) ↔ o.Unavailable
  malformed : (∃ reason, answer = .error (.malformedResponse reason)) ↔ o.Malformed content
  value : ∀ v, answer = .ok v ↔ o.Holds content v

/-- The mark is a word, so the text of data can be searched for it. -/
theorem word_missingMark : Json.Word missingMark.toList := by
  have hletters : "alueNotFound".toList.all (·.isAlpha) = true := rfl
  exact ⟨'V', "alueNotFound".toList, rfl, rfl, List.all_eq_true.1 hletters⟩

theorem saysMissing_iff (e : RemoteError) : e.saysMissing = true ↔ e.Denies := by
  have hmessage : mentionsMissing e.message = true ↔ missingMark.toList <:+: e.message.toList :=
    Text.occursIn_iff
  have hdata : ∀ v : Json, mentionsMissing v.compact = v.anyText mentionsMissing :=
    Json.holds_compact word_missingMark
  simp only [RemoteError.saysMissing, RemoteError.Denies, Bool.or_eq_true, hmessage,
    Option.any_eq_true, hdata]

theorem isSuccess_iff (status : Nat) : isSuccess status = true ↔ Success status := by
  simp only [isSuccess, Success, Bool.and_eq_true, decide_eq_true_eq]
  omega

namespace Outcome

/-! An answer has one status and one reading, so each condition is one on
these two. -/

variable {α : Type} {content : Json → Option α} {status : Nat} {body : String}

theorem reads_response {s : Nat} {envelope : Option Envelope} :
    (response status body).Reads s envelope ↔ s = status ∧ Envelope.parse? body = envelope := by
  constructor
  · rintro ⟨_, h, henvelope⟩
    obtain ⟨rfl, rfl⟩ := Outcome.response.inj h
    exact ⟨rfl, henvelope⟩
  · rintro ⟨rfl, henvelope⟩
    exact ⟨body, rfl, henvelope⟩

theorem reports_response {e : RemoteError} :
    (response status body).Reports e
      ↔ ∃ result, Envelope.parse? body = some ⟨result, some e⟩ := by
  simp [Reports, reads_response]

theorem unavailable_response :
    (response status body).Unavailable ↔ ¬ Success status
      ∧ (Envelope.parse? body = none ∨ ∃ result, Envelope.parse? body = some ⟨result, none⟩) := by
  have hanswer : ¬ (response status body).NoAnswer := fun h => h status body rfl
  simp only [Unavailable, hanswer, false_or, reads_response, exists_and_left]
  constructor
  · rintro ⟨s, hs, ⟨rfl, h⟩ | ⟨rfl, h⟩⟩
    · exact ⟨hs, Or.inl h⟩
    · exact ⟨hs, Or.inr h⟩
  · rintro ⟨hs, h | h⟩
    · exact ⟨status, hs, Or.inl ⟨rfl, h⟩⟩
    · exact ⟨status, hs, Or.inr ⟨rfl, h⟩⟩

theorem malformed_response :
    (response status body).Malformed content ↔ Success status
      ∧ (Envelope.parse? body = none ∨ Envelope.parse? body = some ⟨none, none⟩
        ∨ ∃ result, Envelope.parse? body = some ⟨some result, none⟩
          ∧ ∀ stored, StoredObject result stored → content stored = none) := by
  simp only [Malformed, reads_response]
  constructor
  · rintro ⟨s, hs, ⟨rfl, h⟩ | ⟨rfl, h⟩ | ⟨result, ⟨rfl, h⟩, hnone⟩⟩
    · exact ⟨hs, Or.inl h⟩
    · exact ⟨hs, Or.inr (Or.inl h)⟩
    · exact ⟨hs, Or.inr (Or.inr ⟨result, h, hnone⟩)⟩
  · rintro ⟨hs, h | h | ⟨result, h, hnone⟩⟩
    · exact ⟨status, hs, Or.inl ⟨rfl, h⟩⟩
    · exact ⟨status, hs, Or.inr (Or.inl ⟨rfl, h⟩)⟩
    · exact ⟨status, hs, Or.inr (Or.inr ⟨result, ⟨rfl, h⟩, hnone⟩)⟩

theorem holds_response {v : α} :
    (response status body).Holds content v ↔ Success status ∧ ∃ result stored,
      Envelope.parse? body = some ⟨some result, none⟩ ∧ StoredObject result stored
        ∧ content stored = some v := by
  simp only [Holds, reads_response]
  constructor
  · rintro ⟨s, result, stored, hs, ⟨rfl, h⟩, hstored, hv⟩
    exact ⟨hs, result, stored, h, hstored, hv⟩
  · rintro ⟨hs, result, stored, h, hstored, hv⟩
    exact ⟨status, result, stored, hs, ⟨rfl, h⟩, hstored, hv⟩

end Outcome

/-! ## The decision -/

section

open Outcome

variable {α : Type} {dictionary key : String} {content : Json → Option α} {status : Nat}
  {body : String}

theorem toldApart_noAnswer {o : Outcome} (h : o.NoAnswer) (reason : String) :
    ToldApart o dictionary key content (.error (.nodeUnavailable reason)) := by
  have hreads : ∀ s envelope, ¬ o.Reads s envelope := by
    rintro s envelope ⟨body, ho, _⟩
    exact h s body ho
  constructor <;> simp [Reports, Unavailable, Malformed, Holds, hreads, h]

/-- An error in the envelope decides alone. -/
theorem toldApart_error {q : Query} {found : Option Json} {e : RemoteError}
    (hq : q.target? = some (dictionary, key))
    (h : Envelope.parse? body = some ⟨found, some e⟩) :
    ToldApart (.response status body) dictionary key content (.error (q.refusal e)) := by
  by_cases he : e.Denies
  · have hrefusal : q.refusal e = .notFound dictionary key := by
      simp [Query.refusal, hq, (saysMissing_iff e).2 he]
    rw [hrefusal]
    constructor <;> simp [reports_response, unavailable_response, malformed_response,
      holds_response, h, he, eq_comm]
  · have hmissing : e.saysMissing = false := by
      rw [← Bool.not_eq_true, saysMissing_iff]
      exact he
    have hrefusal : q.refusal e = .nodeRejected e.code e.message := by
      simp [Query.refusal, hq, hmissing]
    rw [hrefusal]
    constructor <;> simp [reports_response, unavailable_response, malformed_response,
      holds_response, h, he]

/-- Without an error, no status but one of success counts. -/
theorem toldApart_failed (hstatus : ¬ Success status)
    (h : Envelope.parse? body = none ∨ ∃ found, Envelope.parse? body = some ⟨found, none⟩)
    (reason : String) :
    ToldApart (.response status body) dictionary key content (.error (.nodeUnavailable reason)) := by
  have hreports : ∀ found e, Envelope.parse? body ≠ some ⟨found, some e⟩ := by
    rcases h with h | ⟨found, h⟩ <;> simp [h]
  constructor <;> simp [reports_response, unavailable_response, malformed_response,
    holds_response, hstatus, hreports, h]

/-- An answer of success that holds nothing that was asked for. -/
theorem toldApart_malformed (hstatus : Success status)
    (h : Envelope.parse? body = none ∨ Envelope.parse? body = some ⟨none, none⟩
      ∨ ∃ found, Envelope.parse? body = some ⟨some found, none⟩
        ∧ ∀ stored, StoredObject found stored → content stored = none) (reason : String) :
    ToldApart (.response status body) dictionary key content
      (.error (.malformedResponse reason)) := by
  have hreports : ∀ found e, Envelope.parse? body ≠ some ⟨found, some e⟩ := by
    rcases h with h | h | ⟨found, h, _⟩ <;> simp [h]
  have hvalue : ∀ v, ¬ (response status body).Holds content v := by
    intro v hv
    obtain ⟨_, result, stored, hresult, hstored, hv⟩ := holds_response.1 hv
    rcases h with h | h | ⟨found, h, hnone⟩
    · simp [h] at hresult
    · simp [h] at hresult
    · obtain rfl : found = result := by simpa [h] using hresult
      simp [hnone stored hstored] at hv
  constructor <;> simp [reports_response, unavailable_response, malformed_response,
    hvalue, hstatus, hreports, h]

/-- An answer of success that holds a value. -/
theorem toldApart_value (hstatus : Success status) {found stored : Json} {v : α}
    (h : Envelope.parse? body = some ⟨some found, none⟩) (hstored : StoredObject found stored)
    (hv : content stored = some v) :
    ToldApart (.response status body) dictionary key content (.ok v) := by
  have hunique : ∀ other, StoredObject found other ↔ other = stored := by
    intro other
    constructor
    · intro hother
      exact Option.some.inj (hother.1.symm.trans hstored.1)
    · rintro rfl
      exact hstored
  constructor <;> simp [reports_response, unavailable_response, malformed_response,
    holds_response, h, hstatus, hunique, hv]

/-- The stored value of a result is found, if it is an object. -/
theorem Query.storedValue_cases (q : Query) (found : Json) :
    (∃ stored, StoredObject found stored ∧ q.storedValue found = .ok stored)
      ∨ (∀ stored, ¬ StoredObject found stored)
        ∧ ∃ reason, q.storedValue found = .error (.malformedResponse reason) := by
  cases hget : found.get? "stored_value" with
  | none =>
    right
    simp [StoredObject, Query.storedValue, hget]
  | some stored =>
    by_cases hobject : stored.isObject = true
    · left
      exact ⟨stored, ⟨hget, hobject⟩, by simp [Query.storedValue, hget, hobject]⟩
    · right
      simp [StoredObject, Query.storedValue, hget, hobject]

/-- How the part of an answer behind the stored value is read: it gives the
content, or the answer is malformed. -/
structure Extracts (content : Json → Option α) (extract : Json → Except Error α) : Prop where
  some : ∀ stored v, content stored = some v → extract stored = .ok v
  none : ∀ stored, content stored = none →
    ∃ reason, extract stored = .error (.malformedResponse reason)

/-- The result in an answer of success is read from its stored value. -/
theorem toldApart_result {extract : Json → Except Error α} (hextract : Extracts content extract)
    (q : Query) {found : Json} (hstatus : Success status)
    (h : Envelope.parse? body = some ⟨some found, none⟩) :
    ToldApart (.response status body) dictionary key content (do
      let stored ← q.storedValue found
      extract stored) := by
  rcases q.storedValue_cases found with ⟨stored, hstored, hok⟩ | ⟨hno, reason, herror⟩
  · rw [hok, Error.ok_bind]
    cases hcontent : content stored with
    | some v =>
      rw [hextract.some stored v hcontent]
      exact toldApart_value hstatus h hstored hcontent
    | none =>
      obtain ⟨reason, hreason⟩ := hextract.none stored hcontent
      rw [hreason]
      refine toldApart_malformed hstatus (Or.inr (Or.inr ⟨found, h, ?_⟩)) _
      intro other hother
      rw [Option.some.inj (hother.1.symm.trans hstored.1)]
      exact hcontent
  · rw [herror, Error.error_bind]
    refine toldApart_malformed hstatus (Or.inr (Or.inr ⟨found, h, ?_⟩)) _
    intro stored hstored
    exact absurd hstored (hno stored)

/-- All outcomes of a question that looks for something are told apart. -/
theorem toldApart {extract : Json → Except Error α} (hextract : Extracts content extract)
    {q : Query} (hq : q.target? = some (dictionary, key)) (url : String) (o : Outcome) :
    ToldApart o dictionary key content (do
      let found ← q.result url o
      let stored ← q.storedValue found
      extract stored) := by
  cases o with
  | timedOut => exact toldApart_noAnswer (by simp [NoAnswer]) _
  | unreachable => exact toldApart_noAnswer (by simp [NoAnswer]) _
  | broken reason => exact toldApart_noAnswer (by simp [NoAnswer]) _
  | response status body =>
    rw [Query.result, Query.bodyResult]
    cases hparse : Envelope.parse? body with
    | none =>
      by_cases hstatus : Success status
      · simp only [(isSuccess_iff status).2 hstatus, if_true]
        exact toldApart_malformed hstatus (Or.inl hparse) _
      · simp only [mt (isSuccess_iff status).1 hstatus]
        exact toldApart_failed hstatus (Or.inl hparse) _
    | some envelope =>
      obtain ⟨found, e⟩ := envelope
      cases e with
      | some e => exact toldApart_error hq hparse
      | none =>
        by_cases hstatus : Success status
        · simp only [(isSuccess_iff status).2 hstatus, if_true]
          cases found with
          | none => exact toldApart_malformed hstatus (Or.inr (Or.inl hparse)) _
          | some found => exact toldApart_result hextract q hstatus hparse
        · simp only [mt (isSuccess_iff status).1 hstatus]
          exact toldApart_failed hstatus (Or.inr ⟨found, hparse⟩) _

end

/-- The content of a dictionary entry: what its stored value holds as a
value of the contract. -/
def itemContent (stored : Json) : Option StoredValue :=
  (stored.get? "CLValue").bind StoredValue.ofJson?

theorem itemOf_toldApart (root : String) (contract : ContractHash) (dictionary key url : String)
    (o : Outcome) :
    ToldApart o dictionary key itemContent (itemOf root contract dictionary key url o) := by
  refine toldApart ⟨?_, ?_⟩ (q := .dictionaryItem root contract dictionary key) rfl url o
  · intro stored v hv
    obtain ⟨content, hcontent, hvalue⟩ := Option.bind_eq_some_iff.1 hv
    simp only [hcontent, hvalue]
  · intro stored hnone
    cases hcontent : stored.get? "CLValue" with
    | none => exact ⟨_, rfl⟩
    | some content =>
      have hvalue : StoredValue.ofJson? content = none := by
        simpa [itemContent, hcontent] using hnone
      simp only [hvalue]
      exact ⟨_, rfl⟩

/-- A named key stands for its stored value itself. -/
theorem namedKeyOf_toldApart (root : String) (account : AccountHash) (path : List String)
    (url : String) (o : Outcome) :
    ToldApart o account.formatted (pathText path) some (namedKeyOf root account path url o) := by
  have hextract : Extracts some (Except.ok : Json → Except Error Json) :=
    ⟨fun _ _ hv => congrArg _ (Option.some.inj hv), by simp⟩
  have hbind : ∀ found : Json, (do
      let stored ← (Query.namedKey root account path).storedValue found
      Except.ok stored) = (Query.namedKey root account path).storedValue found := by
    intro found
    cases (Query.namedKey root account path).storedValue found <;> rfl
  have h := toldApart hextract (q := .namedKey root account path) rfl url o
  simp only [hbind] at h
  exact h

/-! ## Roots -/

/-- An answer of success gives a root. -/
def Outcome.GivesRoot (o : Outcome) (root : String) : Prop :=
  ∃ status result, Success status ∧ o.Reads status (some ⟨some result, none⟩)
    ∧ result.get? "state_root_hash" = some (.string root) ∧ root ≠ ""

/-- An answer of success has a result. -/
theorem Query.result_eq_ok_iff {q : Query} {url : String} {o : Outcome} {found : Json} :
    q.result url o = .ok found
      ↔ ∃ status, Success status ∧ o.Reads status (some ⟨some found, none⟩) := by
  cases o with
  | timedOut => simp [result, Outcome.Reads]
  | unreachable => simp [result, Outcome.Reads]
  | broken reason => simp [result, Outcome.Reads]
  | response status body =>
    have hone : (∃ s, Success s
        ∧ (Outcome.response status body).Reads s (some ⟨some found, none⟩))
          ↔ Success status ∧ Envelope.parse? body = some ⟨some found, none⟩ := by
      simp only [Outcome.reads_response]
      constructor
      · rintro ⟨_, hs, rfl, h⟩
        exact ⟨hs, h⟩
      · rintro ⟨hs, h⟩
        exact ⟨status, hs, rfl, h⟩
    rw [hone, result, bodyResult, ← isSuccess_iff]
    rcases Envelope.parse? body with _ | ⟨found, _ | e⟩
    · cases isSuccess status <;> simp
    · cases isSuccess status <;> cases found <;> simp
    · simp

theorem rootIn?_eq_some_iff {v : Json} {root : String} :
    rootIn? v = some root ↔ v.get? "state_root_hash" = some (.string root) ∧ root ≠ "" := by
  rw [rootIn?]
  split
  · next text htext =>
    by_cases hempty : text = ""
    · simp [htext, hempty, eq_comm]
    · have hroot : text = root → root ≠ "" := fun h => h ▸ hempty
      simpa [htext, hempty] using hroot
  · next hother =>
    have hnone : v.get? "state_root_hash" ≠ some (.string root) := hother root
    simp [hnone]

/-- A root is had exactly from an answer that gives it. -/
theorem rootOf_eq_ok_iff {url root : String} {o : Outcome} :
    rootOf url o = .ok root ↔ o.GivesRoot root := by
  have hgives : o.GivesRoot root
      ↔ ∃ found, Query.stateRoot.result url o = .ok found ∧ rootIn? found = some root := by
    simp only [Outcome.GivesRoot, Query.result_eq_ok_iff, rootIn?_eq_some_iff]
    constructor
    · rintro ⟨status, found, hs, hreads, hroot⟩
      exact ⟨found, ⟨status, hs, hreads⟩, hroot⟩
    · rintro ⟨found, ⟨status, hs, hreads⟩, hroot⟩
      exact ⟨status, found, hs, hreads, hroot⟩
  rw [hgives, rootOf]
  cases Query.stateRoot.result url o with
  | error e => simp
  | ok found =>
    cases hroot : rootIn? found <;> simp [hroot]

/-- An answer to the question for a root tells apart what was received.  Nothing is looked
for with a root, so nothing can be missing, and without a root it does not matter why. -/
structure RootToldApart (o : Outcome) (answer : Except Error String) : Prop where
  root : ∀ root, answer = .ok root ↔ o.GivesRoot root
  rejected : ∀ code message, answer = .error (.nodeRejected code message)
    ↔ ∃ e, o.Reports e ∧ e.code = code ∧ e.message = message
  unavailable : (∃ reason, answer = .error (.nodeUnavailable reason))
    ↔ (∀ root, ¬ o.GivesRoot root) ∧ ∀ e, ¬ o.Reports e
  not_notFound : ∀ dictionary key, answer ≠ .error (.notFound dictionary key)
  not_malformed : ∀ reason, answer ≠ .error (.malformedResponse reason)

section

variable {url : String} {o : Outcome}

/-- An error in the envelope is a refusal, whatever is in its message and its data. -/
theorem rootOf_of_reports {e : RemoteError} (h : o.Reports e) :
    rootOf url o = .error (.nodeRejected e.code e.message) := by
  obtain ⟨status, found, body, rfl, hparse⟩ := h
  have hresult : Query.stateRoot.result url (.response status body)
      = .error (.nodeRejected e.code e.message) := by
    rw [Query.result, Query.bodyResult, hparse]
    rfl
  rw [rootOf, hresult]
  rfl

/-- Without an error in the envelope a question is not refused, and nothing is missing. -/
theorem Query.result_of_not_reports {q : Query} (h : ∀ e, ¬ o.Reports e) :
    (∃ found, q.result url o = .ok found)
      ∨ (∃ reason, q.result url o = .error (.malformedResponse reason))
      ∨ ∃ reason, q.result url o = .error (.nodeUnavailable reason) := by
  cases o with
  | timedOut => exact Or.inr (Or.inr ⟨_, rfl⟩)
  | unreachable => exact Or.inr (Or.inr ⟨_, rfl⟩)
  | broken reason => exact Or.inr (Or.inr ⟨_, rfl⟩)
  | response status body =>
    simp only [Outcome.reports_response] at h
    rw [Query.result, Query.bodyResult]
    rcases hparse : Envelope.parse? body with _ | ⟨found, _ | e⟩
    · cases isSuccess status <;> simp
    · cases isSuccess status <;> cases found <;> simp
    · exact absurd ⟨found, hparse⟩ (h e)

theorem rootOf_of_not_reports (h : ∀ e, ¬ o.Reports e) :
    (∃ root, rootOf url o = .ok root)
      ∨ ∃ reason, rootOf url o = .error (.nodeUnavailable reason) := by
  rw [rootOf]
  rcases Query.result_of_not_reports (q := .stateRoot) h with
    ⟨found, hfound⟩ | ⟨reason, hreason⟩ | ⟨reason, hreason⟩
  · rw [hfound]
    cases hroot : rootIn? found <;> simp [hroot]
  · rw [hreason]
    exact Or.inr ⟨reason, rfl⟩
  · rw [hreason]
    exact Or.inr ⟨reason, rfl⟩

/-- There are three ways to answer the question for a root. -/
theorem rootOf_cases (url : String) (o : Outcome) :
    (∃ root, rootOf url o = .ok root)
      ∨ (∃ e, o.Reports e ∧ rootOf url o = .error (.nodeRejected e.code e.message))
      ∨ ∃ reason, rootOf url o = .error (.nodeUnavailable reason) := by
  by_cases hreports : ∃ e, o.Reports e
  · obtain ⟨e, he⟩ := hreports
    exact Or.inr (Or.inl ⟨e, he, rootOf_of_reports he⟩)
  · rcases rootOf_of_not_reports (not_exists.1 hreports) with hroot | hreason
    · exact Or.inl hroot
    · exact Or.inr (Or.inr hreason)

/-- All outcomes of the question for a root are told apart. -/
theorem rootOf_toldApart (url : String) (o : Outcome) : RootToldApart o (rootOf url o) where
  root _ := rootOf_eq_ok_iff
  rejected code message := by
    constructor
    · intro h
      rcases rootOf_cases url o with ⟨root, hroot⟩ | ⟨e, he, hrejected⟩ | ⟨reason, hreason⟩
      · simp [hroot] at h
      · have herror := Except.error.inj (hrejected.symm.trans h)
        obtain ⟨hcode, hmessage⟩ := Error.nodeRejected.inj herror
        exact ⟨e, he, hcode, hmessage⟩
      · simp [hreason] at h
    · rintro ⟨e, he, rfl, rfl⟩
      exact rootOf_of_reports he
  unavailable := by
    constructor
    · rintro ⟨reason, h⟩
      constructor
      · intro root hroot
        simp [rootOf_eq_ok_iff.2 hroot] at h
      · intro e he
        simp [rootOf_of_reports he] at h
    · rintro ⟨hroots, hreports⟩
      rcases rootOf_of_not_reports hreports with ⟨root, hroot⟩ | hreason
      · exact absurd (rootOf_eq_ok_iff.1 hroot) (hroots root)
      · exact hreason
  not_notFound dictionary key := by
    rcases rootOf_cases url o with ⟨root, h⟩ | ⟨e, -, h⟩ | ⟨reason, h⟩ <;> simp [h]
  not_malformed reason := by
    rcases rootOf_cases url o with ⟨root, h⟩ | ⟨e, -, h⟩ | ⟨reason, h⟩ <;> simp [h]

end

/-! ## The node -/

variable {σ : Type} (transport : Transport (StateM σ)) (config : NodeConfig)

/-- Whatever becomes of the message of a question, a missing value is told
exactly if the node denies it, and is told apart from a refusal, from a node
that cannot be asked, and from an answer to something else. -/
theorem lookup_toldApart (root : String) (id : Nat) (s : σ) :
    (∀ contract dictionary key,
      ToldApart (transport config.rpcUrl ⟨id, .dictionaryItem root contract dictionary key⟩ s).1
        dictionary key itemContent
        ((((node config transport).lookup root contract dictionary key).run.run id).run s).1.1)
    ∧ ∀ account path,
      ToldApart (transport config.rpcUrl ⟨id, .namedKey root account path⟩ s).1
        account.formatted (pathText path) some
        ((((node config transport).namedKey root account path).run.run id).run s).1.1 := by
  constructor
  · intro contract dictionary key
    exact itemOf_toldApart root contract dictionary key config.rpcUrl _
  · intro account path
    exact namedKeyOf_toldApart root account path config.rpcUrl _

-- The mark counts in the data too, under any status.
example :
    let body :=
      "\x7b\"error\": \x7b\"code\": 1, \"message\": \"\", \"data\": [\"ValueNotFound\"]\x7d\x7d"
    itemOf "root" Config.defaultContract "metadatas" "7" "node" (.response 500 body)
      = .error (.notFound "metadatas" "7") := by
  cbv

-- A null is no error, whatever else is in the body.
example :
    let body := "\x7b\"id\": 1, \"result\": \x7b\"stored_value\": \x7b\x7d\x7d, \"error\": null\x7d"
    namedKeyOf "root" Config.demoAccount1 ["key"] "node" (.response 200 body)
      = .ok (.object []) := by
  cbv

/-- Whatever becomes of the message for a root, a root is told exactly if an answer of success
gives one, and a refusal exactly if there is an error in the envelope.  In every other case
the node cannot be asked. -/
theorem currentRoot_toldApart (id : Nat) (s : σ) :
    RootToldApart (transport config.rpcUrl ⟨id, .stateRoot⟩ s).1
      (((node config transport).currentRoot.run.run id).run s).1.1 :=
  rootOf_toldApart config.rpcUrl _

-- A null is no result.
example : rootOf "node" (.response 200 "\x7b\"result\": null, \"error\": null\x7d")
    = .error (.nodeUnavailable "chain_get_state_root_hash: missing result") := by
  cbv

end TokenMarket.Rpc

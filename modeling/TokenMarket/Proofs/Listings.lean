import TokenMarket.Proofs.Course

/-!
# Lists are shown as a whole

Five entries of the menu list records of the user, and two of them then ask which
one is meant.  A record may be unreadable, and it may be any of them.  This module
proves that nobody is ever shown a part of a list, or asked to choose from one: what
is shown is one failure, or all of the list.

There are four groups.

* Rows of reads.  A reader may change its mind between two reads, so a list is read
  in a row of states.  `Collected` is a row without a failure, and `Stopped` one up to
  its first failure.
* Listings.  A `Listing` is what an entry lists, and `Session.listing?` is the table
  of them.
* Commands.  `Listing.leads` plays the steps that the five commands share, and
  `Session.command_leads` is about all of them.
* Turns.  `Shown` lists the ways in which a turn with a listing can go, and
  `Session.turn_shown` proves that there are no others.
-/

namespace TokenMarket

/-! ## Rows of reads -/

/-- A reader that reads lists of records as a list of ids, and then the record of
each. -/
structure Reader.Composed {m : Type → Type} [Monad m] (reader : Reader m) : Prop where
  holdings : ∀ account, reader (.holdings account)
    = reader (.ids .holders account) >>= Repository.withIds fun id => reader (.holder id)
  incoming : ∀ account, reader (.incoming account)
    = reader (.ids .producerRequests account) >>= Repository.withIds fun id => reader (.request id)
  outgoing : ∀ account, reader (.outgoing account)
    = reader (.ids .publisherRequests account) >>= Repository.withIds fun id => reader (.request id)

/-- Whatever the node is, a repository reads like that. -/
theorem Repository.read_composed {m : Type → Type} [Monad m] (r : Repository m) :
    Reader.Composed r.read :=
  ⟨fun _ => rfl, fun _ => rfl, fun _ => rfl⟩

section Rows

variable {σ α : Type} {one : UInt64 → ExceptT Error (StateM σ) α}

/-- The records of ids, read one after the other. -/
inductive Collected (one : UInt64 → ExceptT Error (StateM σ) α) :
    List UInt64 → σ → List (UInt64 × α) → σ → Prop
  | nil {t : σ} : Collected one [] t [] t
  | cons {id : UInt64} {record : α} {ids : List UInt64} {pairs : List (UInt64 × α)} {t u v : σ}
      (hone : (one id).run t = (.ok record, u)) (hrest : Collected one ids u pairs v) :
      Collected one (id :: ids) t ((id, record) :: pairs) v

/-- Records of ids were read up to one that could not be. -/
inductive Stopped (one : UInt64 → ExceptT Error (StateM σ) α) :
    List UInt64 → σ → Error → σ → Prop
  | here {id : UInt64} {ids : List UInt64} {e : Error} {t u : σ}
      (hone : (one id).run t = (.error e, u)) : Stopped one (id :: ids) t e u
  | later {id : UInt64} {record : α} {ids : List UInt64} {e : Error} {t u v : σ}
      (hone : (one id).run t = (.ok record, u)) (hrest : Stopped one ids u e v) :
      Stopped one (id :: ids) t e v

/-- Each id has its record, in the order of the ids. -/
theorem Collected.ids_eq {ids : List UInt64} {pairs : List (UInt64 × α)} {t u : σ}
    (h : Collected one ids t pairs u) : pairs.map Prod.fst = ids := by
  induction h with
  | nil => rfl
  | cons _ _ ih => exact congrArg _ ih

/-- A row has all records or stops, by induction over the ids. -/
theorem Repository.withIds_run (one : UInt64 → ExceptT Error (StateM σ) α) (ids : List UInt64) (t : σ) :
    (∃ pairs u, (Repository.withIds one ids).run t = (.ok pairs, u)
        ∧ Collected one ids t pairs u)
      ∨ ∃ e u, (Repository.withIds one ids).run t = (.error e, u) ∧ Stopped one ids t e u := by
  induction ids generalizing t with
  | nil => exact Or.inl ⟨[], t, rfl, .nil⟩
  | cons id rest ih =>
    rw [Repository.withIds, run_bind_state]
    cases hone : (one id).run t with
    | mk answer u =>
    cases answer with
    | error e => exact Or.inr ⟨e, u, rfl, .here hone⟩
    | ok record =>
      simp only [run_bind_state]
      rcases ih u with ⟨pairs, v, hrun, hpairs⟩ | ⟨e, v, hrun, hstop⟩
      · rw [hrun]
        exact Or.inl ⟨_, v, rfl, .cons hone hpairs⟩
      · rw [hrun]
        exact Or.inr ⟨e, v, rfl, .later hone hstop⟩

end Rows

/-! ## Listings -/

/-- What an entry lists: the ids, the record of an id, and how they are shown. -/
structure Listing (m : Type → Type) where
  Record : Type
  ids : ExceptT Error m (List UInt64)
  one : UInt64 → ExceptT Error m Record
  heading : String
  view : UInt64 → Record → Json

namespace Listing

variable {m : Type → Type}

/-- Reads the ids and the record of each. -/
def read [Monad m] (l : Listing m) : ExceptT Error m (List (UInt64 × l.Record)) :=
  l.ids >>= Repository.withIds l.one

/-- The heading, and under it a record for each of the pairs. -/
def events (l : Listing m) (pairs : List (UInt64 × l.Record)) : List Event :=
  .heading l.heading :: pairs.map fun (id, record) => .record (l.view id record)

end Listing

namespace Session

open Command

/-- What an entry lists, if it lists anything. -/
def listing? {m : Type → Type} (s : Session) (reader : Reader m) : MenuEntry → Option (Listing m)
  | .incoming | .approve => some {
      Record := Request
      ids := reader (.ids .producerRequests s.user.account)
      one := fun id => reader (.request id)
      heading := "Your incoming requests : "
      view := View.request s.identities }
  | .outgoing | .cancel => some {
      Record := Request
      ids := reader (.ids .publisherRequests s.user.account)
      one := fun id => reader (.request id)
      heading := "Your outgoing requests : "
      view := View.request s.identities }
  | .holdings => some {
      Record := Holder
      ids := reader (.ids .holders s.user.account)
      one := fun id => reader (.holder id)
      heading := "Your tokens : "
      view := fun _ => View.holder }
  | _ => none

theorem exists_listing {m : Type → Type} (s : Session) (reader : Reader m) {choice : String}
    (h : choice ∈ ["5", "6", "7", "8", "12"]) :
    ∃ entry l, MenuEntry.ofChoice? choice = some entry ∧ s.listing? reader entry = some l := by
  simp only [List.mem_cons, List.not_mem_nil, or_false] at h
  rcases h with rfl | rfl | rfl | rfl | rfl <;> exact ⟨_, _, rfl, rfl⟩

/-- The order that is made of an id behind a listing. -/
def listedOrder? : MenuEntry → Option (String → Order)
  | .approve => some .approve
  | .cancel => some .cancel
  | _ => none

/-- What a command does behind its listing. -/
def behindListing (s : Session) (entry : MenuEntry) : Command Unit :=
  match listedOrder? entry with
  | none => return ()
  | some order => do
    let text ← ask requestPrompt
    s.place (order text)

end Session

/-! ## Commands -/

section Commands

variable {σ : Type} {w : Dialogue.World (StateM σ)}

/-- The step of a command that does what a reader does, and ends the command if that
fails. -/
structure Command.Reads {α : Type} (x : Command α) (w : Dialogue.World (StateM σ))
    (y : ExceptT Error (StateM σ) α) : Prop where
  ok : ∀ {a t u}, y.run t = (.ok a, u) → ∀ (f : α → Command Unit) lines,
    ((x >>= f).run.run w lines).run t = ((f a).run.run w lines).run u
  error : ∀ {e t u}, y.run t = (.error e, u) → ∀ (f : α → Command Unit) lines,
    ((x >>= f).run.run w lines).run t = (⟨[], lines, some (.error (.marketplace e))⟩, u)

/-- A command that shows a listing and goes on, or fails before anything is shown. -/
structure Listing.Leads (l : Listing (StateM σ)) (w : Dialogue.World (StateM σ))
    (x next : Command Unit) : Prop where
  whole : ∀ {pairs t u}, l.read.run t = (.ok pairs, u) → ∀ lines,
    (x.run.run w lines).run t = Dialogue.Run.follow (fun _ rest v => (next.run.run w rest).run v)
      (⟨l.events pairs, lines, some ()⟩, u)
  failed : ∀ {e t u}, l.read.run t = (.error e, u) → ∀ lines,
    (x.run.run w lines).run t = (⟨[], lines, some (.error (.marketplace e))⟩, u)

namespace Command

theorem read_reads (q : Read) : Reads (read q) w (w.reader q) := by
  have hstep : ∀ (f : q.Answer → Command Unit) lines t, ((read q >>= f).run.run w lines).run t
      = ((Dialogue.done (((w.reader q).run t).1.mapError .marketplace)
        >>= ExceptT.bindCont f).run w lines).run ((w.reader q).run t).2 := fun _ _ _ => rfl
  constructor
  · intro a t u h f lines
    rw [hstep, h]
    rfl
  · intro e t u h f lines
    rw [hstep, h]
    rfl

theorem run_displayAll (events : List Event) (next : Command Unit) (lines : List InputLine)
    (t : σ) :
    ((displayAll events >>= fun _ => next).run.run w lines).run t
      = Dialogue.Run.follow (fun _ rest v => (next.run.run w rest).run v)
        (⟨events, lines, some ()⟩, t) := by
  induction events with
  | nil => rfl
  | cons e rest ih =>
    rw [displayAll, bind_assoc]
    change ((Dialogue.say e (displayAll rest >>= fun _ => next).run).run w lines).run t = _
    rw [Dialogue.run_say, ih]
    rfl

end Command

open Command

/-- A list is read before anything of it is shown. -/
theorem Listing.leads {l : Listing (StateM σ)} {x : Command (List (UInt64 × l.Record))}
    (h : x.Reads w l.read) (next : Command Unit) :
    l.Leads w (do
      let pairs ← x
      display (.heading l.heading)
      displayAll (pairs.map fun (id, record) => .record (l.view id record))
      next) next where
  whole hread lines := by
    rw [h.ok hread]
    change ((Dialogue.say _ (displayAll _ >>= fun _ => next).run).run w lines).run _ = _
    rw [Dialogue.run_say, run_displayAll]
    rfl
  failed hread lines := h.error hread _ lines

namespace Session

variable {s : Session} {l : Listing (StateM σ)}

theorem showIncoming_leads (hreader : w.reader.Composed)
    (hl : s.listing? w.reader .incoming = some l) (next : Command Unit) :
    l.Leads w (s.showIncoming >>= fun _ => next) next := by
  cases hl
  simp only [showIncoming, bind_assoc]
  have hread := read_reads (w := w) (.incoming s.user.account)
  rw [hreader.incoming] at hread
  exact Listing.leads hread next

theorem showOutgoing_leads (hreader : w.reader.Composed)
    (hl : s.listing? w.reader .outgoing = some l) (next : Command Unit) :
    l.Leads w (s.showOutgoing >>= fun _ => next) next := by
  cases hl
  simp only [showOutgoing, bind_assoc]
  have hread := read_reads (w := w) (.outgoing s.user.account)
  rw [hreader.outgoing] at hread
  exact Listing.leads hread next

theorem showHoldings_leads (hreader : w.reader.Composed)
    (hl : s.listing? w.reader .holdings = some l) (next : Command Unit) :
    l.Leads w (s.showHoldings >>= fun _ => next) next := by
  cases hl
  simp only [showHoldings, bind_assoc]
  have hread := read_reads (w := w) (.holdings s.user.account)
  rw [hreader.holdings] at hread
  exact Listing.leads hread next

/-- What the commands with a listing do. -/
theorem command_leads (hreader : w.reader.Composed) {entry : MenuEntry}
    (hl : s.listing? w.reader entry = some l) :
    l.Leads w (s.command entry) (s.behindListing entry) := by
  cases entry with
  | incoming =>
    rw [command, ← bind_pure s.showIncoming]
    exact showIncoming_leads hreader hl (pure ())
  | outgoing =>
    rw [command, ← bind_pure s.showOutgoing]
    exact showOutgoing_leads hreader hl (pure ())
  | holdings =>
    rw [command, ← bind_pure s.showHoldings]
    exact showHoldings_leads hreader hl (pure ())
  | approve => exact showIncoming_leads hreader hl _
  | cancel => exact showOutgoing_leads hreader hl _
  | _ => cases hl

end Session

end Commands

/-! ## Turns -/

namespace Session

variable {σ : Type} {w : Dialogue.World (StateM σ)} {s : Session} {entry : MenuEntry}
  {lines : List InputLine}

/-- What is shown of an order. -/
def placed (s : Session) (order : Order) : Event :=
  match s.terms.build s.user.secretKey order with
  | .ok d => .deploy d
  | .error e => .failure (.marketplace e)

/-- How a turn goes on that asks for an id and makes an order of it.  The answer is the
next line, and empty if there is none. -/
inductive Answered (s : Session) (order : String → Order) :
    List InputLine → Dialogue.Run Flow → Prop
  | line {text : String} {rest : List InputLine} : Answered s order (some text :: rest)
      ⟨[.prompt requestPrompt, s.placed (order text)], rest, some .again⟩
  | ended : Answered s order [] ⟨[.prompt requestPrompt, s.placed (order "")], [], some .again⟩
  | unread {rest : List InputLine} : Answered s order (none :: rest)
      ⟨[.prompt requestPrompt], rest, none⟩

/-- How a turn with a listing goes behind its choice. -/
inductive Shown (s : Session) (entry : MenuEntry) (l : Listing (StateM σ))
    (lines : List InputLine) (t : σ) : Dialogue.Run Flow × σ → Prop
  /-- There is no list of ids. -/
  | unlisted {e : Error} {u : σ} (hids : l.ids.run t = (.error e, u)) :
      Shown s entry l lines t (⟨opening ++ [.failure (.marketplace e)], lines, some .again⟩, u)
  /-- There is no record of one of the ids. -/
  | stopped {ids : List UInt64} {e : Error} {u v : σ} (hids : l.ids.run t = (.ok ids, u))
      (hone : Stopped l.one ids u e v) :
      Shown s entry l lines t (⟨opening ++ [.failure (.marketplace e)], lines, some .again⟩, v)
  /-- There are all records, and nothing else to do. -/
  | listed {ids : List UInt64} {pairs : List (UInt64 × l.Record)} {u v : σ}
      (hids : l.ids.run t = (.ok ids, u)) (hall : Collected l.one ids u pairs v)
      (hentry : listedOrder? entry = none) :
      Shown s entry l lines t (⟨opening ++ l.events pairs, lines, some .again⟩, v)
  /-- There are all records, and one is asked for. -/
  | asked {ids : List UInt64} {pairs : List (UInt64 × l.Record)} {u v : σ}
      {order : String → Order} {r : Dialogue.Run Flow}
      (hids : l.ids.run t = (.ok ids, u)) (hall : Collected l.one ids u pairs v)
      (hentry : listedOrder? entry = some order) (hanswered : Answered s order lines r) :
      Shown s entry l lines t ({ r with events := opening ++ l.events pairs ++ r.events }, v)

theorem place_run (s : Session) (order : Order) (lines : List InputLine) (t : σ) :
    ∃ events result, ((s.place order).run.run w lines).run t = (⟨events, lines, some result⟩, t)
      ∧ events ++ Command.report (some result) = [s.placed order] := by
  have hplace : s.place order = (Command.ofExcept (s.terms.build s.user.secretKey order)
    >>= fun d => Command.display (.deploy d)) := rfl
  rw [hplace, placed]
  cases s.terms.build s.user.secretKey order with
  | ok d => exact ⟨_, _, rfl, rfl⟩
  | error e => exact ⟨_, _, rfl, rfl⟩

theorem behindListing_none (h : listedOrder? entry = none) (lines : List InputLine) (t : σ) :
    ((s.behindListing entry).run.run w lines).run t = (⟨[], lines, some (.ok ())⟩, t) := by
  rw [behindListing, h]
  rfl

theorem behindListing_some {order : String → Order} (h : listedOrder? entry = some order)
    (lines : List InputLine) (t : σ) :
    ∃ r, ((s.behindListing entry).run.run w lines).run t = (r, t)
      ∧ Answered s order lines
        ⟨r.events ++ Command.report r.result, r.rest, r.result.map fun _ => .again⟩ := by
  have hask : (s.behindListing entry).run
      = .ask requestPrompt fun line => (s.place (order (line.getD ""))).run := by
    rw [behindListing, h]
    rfl
  rw [hask]
  -- At the end of the input the order is made of the empty text.
  rcases lines with _ | ⟨_ | text, rest⟩
  · obtain ⟨events, result, hrun, hevents⟩ := s.place_run (w := w) (order "") [] t
    refine ⟨⟨.prompt requestPrompt :: events, [], some result⟩, ?_, ?_⟩
    · exact congrArg (fun out => (out.1.after (.prompt requestPrompt), out.2)) hrun
    · simp only [List.cons_append, hevents]
      exact .ended
  · exact ⟨_, rfl, .unread⟩
  · obtain ⟨events, result, hrun, hevents⟩ := s.place_run (w := w) (order text) rest t
    refine ⟨⟨.prompt requestPrompt :: events, rest, some result⟩, ?_, ?_⟩
    · exact congrArg (fun out => (out.1.after (.prompt requestPrompt), out.2)) hrun
    · simp only [List.cons_append, hevents]
      exact .line

/-- A turn with a listing goes in one of these ways. -/
theorem turn_shown (hreader : w.reader.Composed) {line : String} {l : Listing (StateM σ)}
    (hentry : MenuEntry.ofChoice? (Text.trim line) = some entry)
    (hl : s.listing? w.reader entry = some l) (lines : List InputLine) (t : σ) :
    Shown s entry l lines t ((s.turn.run w (some line :: lines)).run t) := by
  have hexit : entry ≠ .exit := by
    intro h
    subst h
    cases hl
  have hleads := command_leads hreader hl
  -- All reads come first, so their outcome decides what is shown.
  have hread : l.read.run t = _ := run_bind_state l.ids (Repository.withIds l.one) t
  cases hids : l.ids.run t with
  | mk answer u =>
  rw [hids] at hread
  cases answer with
  | error e =>
    rw [turn_command hentry hexit (hleads.failed hread lines)]
    exact .unlisted hids
  | ok ids =>
    rcases Repository.withIds_run l.one ids u with ⟨pairs, v, hrun, hall⟩ | ⟨e, v, hrun, hone⟩
    · have hwhole := hleads.whole (hread.trans hrun) lines
      cases hlisted : listedOrder? entry with
      | none =>
        rw [Dialogue.Run.follow, behindListing_none hlisted] at hwhole
        rw [turn_command hentry hexit hwhole]
        simp only [Command.report, List.append_nil]
        exact .listed hids hall hlisted
      | some order =>
        obtain ⟨r, hrun, hanswered⟩ := behindListing_some (w := w) (s := s) hlisted lines v
        rw [Dialogue.Run.follow, hrun] at hwhole
        rw [turn_command hentry hexit hwhole]
        have hshown := Shown.asked hids hall hlisted hanswered
        simpa only [List.append_assoc] using hshown
    · rw [turn_command hentry hexit (hleads.failed (hread.trans hrun) lines)]
      exact .stopped hids hone

end Session

/-- A failure is shown as its kind and its message. -/
theorem Event.render_failure (p : Problem) :
    (Event.failure p).render false = p.kind ++ ": " ++ p.message ++ "\n" := by
  rw [← String.toList_inj]
  simp [render, spans, line, Span.render]

/-- A list is shown as a whole, or what is wrong is told and nothing else.

Five choices have a listing.  The ids are read and then, one after the other, the
record of each.  If one of the reads fails, then the first one that does is all that
is told, and the next line is the next choice.  Otherwise the heading is shown, and
under it one record for each id, in the order of the ids.  Only behind the last one
is an id asked for, and a line taken for it. -/
theorem Desk.listing_all_or_nothing {σ : Type} {c : Config} {w : Dialogue.World (StateM σ)}
    {given : Option String} {input : List InputLine} {start : σ} (hreader : w.reader.Composed)
    (p : Point c w given input start) {line : String} {lines : List InputLine}
    (hrest : p.rest = some line :: lines) (hchoice : Text.trim line ∈ ["5", "6", "7", "8", "12"]) :
    ∃ entry l, MenuEntry.ofChoice? (Text.trim line) = some entry
      ∧ p.session.listing? w.reader entry = some l
      ∧ Session.Shown p.session entry l lines p.state ((p.session.turn.run w p.rest).run p.state)
      ∧ (∀ {ids t pairs u}, Collected l.one ids t pairs u → pairs.map Prod.fst = ids)
      ∧ ∀ e : Error, (Event.failure (.marketplace e)).render false
        = e.kind ++ ": " ++ e.message ++ "\n" := by
  obtain ⟨entry, l, hentry, hl⟩ := p.session.exists_listing w.reader hchoice
  have hshown := Session.turn_shown hreader hentry hl lines p.state
  rw [← hrest] at hshown
  exact ⟨entry, l, hentry, hl, hshown, Collected.ids_eq,
    fun e => Event.render_failure (.marketplace e)⟩

/-- The first identity is about to approve a request. -/
def approving : Desk.Point {} bareWorld (some "1") [some "8", some "0"] {} :=
  .behindLogin select_demo _ _ _

/-- There is no list of requests, and nothing is asked. -/
theorem Desk.listing_all_or_nothing_approving :
    bareWorld.reader.Composed ∧ Text.trim "8" ∈ ["5", "6", "7", "8", "12"]
      ∧ ∃ entry l, MenuEntry.ofChoice? (Text.trim "8") = some entry
        ∧ approving.session.listing? bareWorld.reader entry = some l
        ∧ Session.Shown approving.session entry l [some "0"] approving.state
          ((approving.session.turn.run bareWorld approving.rest).run approving.state)
        ∧ (∀ {ids t pairs u}, Collected l.one ids t pairs u → pairs.map Prod.fst = ids)
        ∧ ∀ e : Error, (Event.failure (.marketplace e)).render false
          = e.kind ++ ": " ++ e.message ++ "\n" := by
  have hreader : bareWorld.reader.Composed := Repository.read_composed _
  have hchoice : Text.trim "8" ∈ ["5", "6", "7", "8", "12"] := by decide
  exact ⟨hreader, hchoice, Desk.listing_all_or_nothing hreader approving rfl hchoice⟩

end TokenMarket

import TokenMarket.Proofs.WrittenLines

/-!
# Written documents are read back

A document of a simple form has entries first, then tables with entries of their own, and
then tables that are the items of one array.  This module shows that a document of this form
is read as its members, in the order in which they are written.

There are three groups.

* Entries.  Each entry of a new name becomes one more member.
* Sections.  A section is added when the next header or the end is read.  So `Adds` compares
  the members before and after some lines as if the open section had been added, and
  `Adds.append` puts lines together.
* Sheets.  `Sheet` is the simple form, and `Sheet.parse?_text` is the result.
-/

namespace TokenMarket.Toml

/-! ## Entries -/

/-- The members that have such values. -/
def membersOf (entries : List (String × Datum)) : Members :=
  entries.map fun (name, d) => (name, d.toml)

/-- The entries, as they are kept while a section is open. -/
def plainEntries (entries : List (String × Datum)) : List Entry :=
  entries.map fun (name, d) => ([], name, d.toml)

def entryLines (entries : List (String × Datum)) : List Written :=
  entries.map fun (name, d) => .entry name d

/-- Entries that can be read.  Nothing is asked of the texts in them. -/
structure SoundEntries (entries : List (String × Datum)) : Prop where
  nodup : (entries.map Prod.fst).Nodup
  bare : ∀ name ∈ entries.map Prod.fst, Bare name
  fits : ∀ e ∈ entries, e.2.Fits

theorem SoundEntries.of_names {entries : List (String × Datum)} {names : List String}
    (hnames : entries.map Prod.fst = names) (hnodup : names.Nodup)
    (hbare : ∀ name ∈ names, Bare name) (hfits : ∀ e ∈ entries, e.2.Fits) :
    SoundEntries entries := by
  subst hnames
  exact ⟨hnodup, hbare, hfits⟩

theorem SoundEntries.sound_lines {entries : List (String × Datum)} (h : SoundEntries entries) :
    ∀ w ∈ entryLines entries, w.Sound := by
  intro w hw
  obtain ⟨e, he, rfl⟩ := List.mem_map.1 hw
  exact ⟨h.bare e.1 (List.mem_map_of_mem he), h.fits e he⟩

theorem member?_eq_none {name : String} {members : Members} (h : name ∉ members.map Prod.fst) :
    member? members name = none := by
  refine List.lookup_eq_none_iff.2 fun p hp => ?_
  refine bne_iff_ne.2 ?_
  rintro rfl
  exact h (List.mem_map_of_mem hp)

theorem member?_append {name : String} {members : Members} (h : name ∉ members.map Prod.fst)
    (v : Toml) : member? (members ++ [(name, v)]) name = some v := by
  have hnone : members.lookup name = none := member?_eq_none h
  rw [member?, List.lookup_append, hnone, Option.none_or, List.lookup_cons_self]

theorem setMember_append {name : String} {members : Members} (h : name ∉ members.map Prod.fst)
    (v w : Toml) : setMember name w (members ++ [(name, v)]) = members ++ [(name, w)] := by
  induction members with
  | nil => simp [setMember]
  | cons p members ih =>
    obtain ⟨hp, hmembers⟩ := List.ne_and_not_mem_of_not_mem_cons h
    rw [List.cons_append, setMember, if_neg hp.symm, ih hmembers]
    rfl

/-- Entries of new names are members. -/
theorem addEntries?_membersOf {entries : List (String × Datum)} {members : Members}
    (h : (members.map Prod.fst ++ entries.map Prod.fst).Nodup) :
    addEntries? (plainEntries entries) members = some (members ++ membersOf entries) := by
  induction entries generalizing members with
  | nil => simp [addEntries?, plainEntries, membersOf]
  | cons e entries ih =>
    obtain ⟨name, d⟩ := e
    have hname : name ∉ members.map Prod.fst := by
      intro hmem
      exact (List.nodup_append.1 h).2.2 name hmem name List.mem_cons_self rfl
    have hentry : addEntry? [] name d.toml members = some (members ++ [(name, d.toml)]) := by
      simp [change?, addEntry?, addMember?, member?_eq_none hname]
    have hnodup : ((members ++ [(name, d.toml)]).map Prod.fst ++ entries.map Prod.fst).Nodup := by
      simpa using h
    rw [plainEntries, List.map_cons, addEntries?, List.foldlM_cons]
    refine Option.bind_eq_some_iff.2 ⟨members ++ [(name, d.toml)], hentry, ?_⟩
    refine (ih hnodup).trans ?_
    simp [membersOf]

/-- So are the entries of a new table. -/
theorem addEntries?_nil {entries : List (String × Datum)} (h : (entries.map Prod.fst).Nodup) :
    addEntries? (plainEntries entries) [] = some (membersOf entries) := by
  have hnodup : (([] : Members).map Prod.fst ++ entries.map Prod.fst).Nodup := h
  exact addEntries?_membersOf hnodup

/-! ## Sections -/

/-- Entries go on with the open section. -/
theorem assemble?_entryLines (header : Header) (opened : List Entry) (root : Members)
    (entries : List (String × Datum)) (rest : List Line) :
    assemble? header opened root ((entryLines entries).map Written.line ++ rest)
      = assemble? header ((plainEntries entries).reverse ++ opened) root rest := by
  induction entries generalizing opened with
  | nil => rfl
  | cons e entries ih =>
    obtain ⟨name, d⟩ := e
    refine (ih (([], name, d.toml) :: opened)).trans ?_
    simp [plainEntries]

/-- The lines change the members of a document.  The section that is open in front of them
counts as added, and so does the one that is open behind them. -/
def Adds (lines : List Written) (before after : Members) : Prop :=
  ∀ header entries root rest, addSection? header entries.reverse root = some before →
    ∃ header' entries' root', addSection? header' entries'.reverse root' = some after
      ∧ assemble? header entries root (lines.map Written.line ++ rest)
        = assemble? header' entries' root' rest

variable {first second : List Written} {before between after : Members}

theorem adds_nil (members : Members) : Adds [] members members :=
  fun header entries root _ h => ⟨header, entries, root, h, rfl⟩

theorem Adds.append (h : Adds first before between) (h' : Adds second between after) :
    Adds (first ++ second) before after := by
  intro header entries root rest hopen
  obtain ⟨header₁, entries₁, root₁, hopen₁, hfirst⟩ := h header entries root _ hopen
  obtain ⟨header₂, entries₂, root₂, hopen₂, hsecond⟩ := h' header₁ entries₁ root₁ rest hopen₁
  refine ⟨header₂, entries₂, root₂, hopen₂, ?_⟩
  rw [List.map_append, List.append_assoc, hfirst, hsecond]

/-- A table of a new name is a member. -/
theorem adds_table {name : String} {entries : List (String × Datum)}
    (hname : name ∉ before.map Prod.fst) (hentries : (entries.map Prod.fst).Nodup) :
    Adds (.table name :: entryLines entries) before
      (before ++ [(name, .table .header (membersOf entries))]) := by
  intro header opened root rest hopen
  refine ⟨.table [] name, (plainEntries entries).reverse, before, ?_, ?_⟩
  · rw [List.reverse_reverse, addSection?, addTable?, change?, member?_eq_none hname]
    simp only [addEntries?_nil hentries, Option.bind_eq_bind, Option.bind_some]
    rfl
  · change (addSection? header opened.reverse root).bind (fun root =>
      assemble? (.table [] name) [] root ((entryLines entries).map Written.line ++ rest)) = _
    rw [hopen, Option.bind_some, assemble?_entryLines, List.append_nil]

/-- The members with an array of tables behind them, if it is not empty. -/
def withTables (members : Members) (name : String) (items : List Members) : Members :=
  if items = [] then members else members ++ [(name, .tables items)]

theorem withTables_nil (members : Members) (name : String) : withTables members name [] = members :=
  if_pos rfl

/-- One more table of the name is the last item of the array. -/
theorem adds_tableOf {name : String} {entries : List (String × Datum)} {items : List Members}
    (hname : name ∉ before.map Prod.fst) (hentries : (entries.map Prod.fst).Nodup) :
    Adds (.tableOf name :: entryLines entries) (withTables before name items)
      (withTables before name (items ++ [membersOf entries])) := by
  intro header opened root rest hopen
  refine ⟨.tableOf [] name, (plainEntries entries).reverse, withTables before name items, ?_, ?_⟩
  · rw [List.reverse_reverse, addSection?, addToTables?, change?]
    by_cases hitems : items = []
    · rw [hitems, withTables, if_pos rfl, member?_eq_none hname]
      simp only [addEntries?_nil hentries, Option.bind_eq_bind, Option.bind_some]
      rfl
    · rw [withTables, if_neg hitems, member?_append hname]
      simp only [addEntries?_nil hentries, Option.bind_eq_bind, Option.bind_some,
        setMember_append hname]
      simp [withTables, pure]
  · change (addSection? header opened.reverse root).bind (fun root =>
      assemble? (.tableOf [] name) [] root ((entryLines entries).map Written.line ++ rest)) = _
    rw [hopen, Option.bind_some, assemble?_entryLines, List.append_nil]

/-- Tables of new names are members. -/
theorem adds_tables {groups : List (String × List (String × Datum))}
    (h : (before.map Prod.fst ++ groups.map Prod.fst).Nodup)
    (hentries : ∀ g ∈ groups, (g.2.map Prod.fst).Nodup) :
    Adds (groups.flatMap fun (name, entries) => .table name :: entryLines entries) before
      (before ++ groups.map fun (name, entries) => (name, .table .header (membersOf entries))) := by
  induction groups generalizing before with
  | nil =>
    rw [List.map_nil, List.append_nil]
    exact adds_nil before
  | cons g groups ih =>
    obtain ⟨name, entries⟩ := g
    obtain ⟨hg, hgroups⟩ := List.forall_mem_cons.1 hentries
    have hname : name ∉ before.map Prod.fst := fun hmem =>
      (List.nodup_append.1 h).2.2 name hmem name List.mem_cons_self rfl
    have hnodup : ((before ++ [(name, Toml.table .header (membersOf entries))]).map Prod.fst
        ++ groups.map Prod.fst).Nodup := by
      simpa using h
    have hrest := ih hnodup hgroups
    rw [List.append_assoc] at hrest
    exact (adds_table hname hg).append hrest

/-- Tables of one new name are the items of an array. -/
theorem adds_tablesOf {name : String} {items : List (List (String × Datum))}
    (hname : name ∉ before.map Prod.fst)
    (hitems : ∀ entries ∈ items, (entries.map Prod.fst).Nodup) :
    Adds (items.flatMap fun entries => .tableOf name :: entryLines entries) before
      (withTables before name (items.map membersOf)) := by
  have hbehind : ∀ done, Adds (items.flatMap fun entries => .tableOf name :: entryLines entries)
      (withTables before name done) (withTables before name (done ++ items.map membersOf)) := by
    induction items with
    | nil =>
      intro done
      rw [List.map_nil, List.append_nil]
      exact adds_nil _
    | cons entries items ih =>
      intro done
      obtain ⟨hentries, hitems⟩ := List.forall_mem_cons.1 hitems
      have hrest := ih hitems (done ++ [membersOf entries])
      rw [List.append_assoc] at hrest
      exact (adds_tableOf hname hentries).append hrest
  have hall := hbehind []
  rwa [withTables_nil, List.nil_append] at hall

/-! ## Sheets -/

/-- Every line takes a character, so the text is long enough for a round to each of them. -/
theorem length_le_flatMap (doc : List Written) :
    doc.length ≤ (doc.flatMap Written.chars).length := by
  induction doc with
  | nil => exact Nat.zero_le _
  | cons w doc ih =>
    have hw : 0 < w.chars.length := by
      cases w <;> simp only [Written.chars, List.length_append, List.length_cons] <;> omega
    rw [List.flatMap_cons, List.length_append, List.length_cons]
    omega

/-- A written document has no byte order mark. -/
theorem skipMark_written {doc : List Written} (h : ∀ w ∈ doc, w.Sound) :
    skipMark (doc.flatMap Written.chars) = doc.flatMap Written.chars := by
  cases doc with
  | nil => rfl
  | cons w doc =>
    obtain ⟨c, cs, hcs, hc⟩ := w.chars_eq_cons (h w List.mem_cons_self)
    rw [List.flatMap_cons, hcs]
    unfold skipMark
    split
    next heq =>
      rcases hc with hc | rfl
      · exact absurd (List.cons.inj heq).1 (ne_of_kind hc (by decide))
      · exact absurd (List.cons.inj heq).1 (by decide)
    next => rfl

/-- A document of a simple form. -/
structure Sheet where
  entries : List (String × Datum)
  /-- Names with the entries of a table. -/
  tables : List (String × List (String × Datum))
  /-- The name of the array. -/
  arrayName : String
  items : List (List (String × Datum))

namespace Sheet

/-- The lines behind the first entries. -/
def sections (s : Sheet) : List Written :=
  s.tables.flatMap (fun (name, entries) => .table name :: entryLines entries)
    ++ s.items.flatMap fun entries => .tableOf s.arrayName :: entryLines entries

def text (s : Sheet) : String :=
  String.ofList ((entryLines s.entries ++ s.sections).flatMap Written.chars)

/-- The members of the document. -/
def members (s : Sheet) : Members :=
  withTables
    (membersOf s.entries
      ++ s.tables.map fun (name, entries) => (name, .table .header (membersOf entries)))
    s.arrayName (s.items.map membersOf)

/-- The names of the members. -/
def names (s : Sheet) : List String :=
  s.entries.map Prod.fst ++ s.tables.map Prod.fst ++ [s.arrayName]

/-- Every list of entries. -/
def groups (s : Sheet) : List (List (String × Datum)) :=
  s.entries :: (s.tables.map Prod.snd ++ s.items)

/-- The document can be read. -/
structure Sound (s : Sheet) : Prop where
  nodup : s.names.Nodup
  bare : ∀ name ∈ s.names, Bare name
  groups : ∀ entries ∈ s.groups, SoundEntries entries

variable {s : Sheet}

theorem sound_lines (h : s.Sound) : ∀ w ∈ entryLines s.entries ++ s.sections, w.Sound := by
  have hgroup : ∀ {entries}, entries ∈ s.groups → ∀ w ∈ entryLines entries, w.Sound :=
    fun hmem => (h.groups _ hmem).sound_lines
  rw [sections, List.forall_mem_append, List.forall_mem_append]
  refine ⟨hgroup List.mem_cons_self, fun w hw => ?_, fun w hw => ?_⟩
  · obtain ⟨⟨name, entries⟩, hmem, hw⟩ := List.mem_flatMap.1 hw
    rcases List.mem_cons.1 hw with rfl | hw
    · refine h.bare name ?_
      exact List.mem_append_left _ (List.mem_append_right _ (List.mem_map_of_mem hmem))
    · refine hgroup (List.mem_cons_of_mem _ (List.mem_append_left _ ?_)) w hw
      exact List.mem_map_of_mem (f := Prod.snd) hmem
  · obtain ⟨entries, hmem, hw⟩ := List.mem_flatMap.1 hw
    rcases List.mem_cons.1 hw with rfl | hw
    · exact h.bare s.arrayName (List.mem_append_right _ List.mem_cons_self)
    · exact hgroup (List.mem_cons_of_mem _ (List.mem_append_right _ hmem)) w hw

/-- The sections of the document add its members. -/
theorem adds_sections (h : s.Sound) : Adds s.sections (membersOf s.entries) s.members := by
  obtain ⟨hnames, -, hname⟩ := List.nodup_append.1 h.nodup
  have hfirst : (membersOf s.entries).map Prod.fst = s.entries.map Prod.fst := by
    simp [membersOf, Function.comp_def]
  have hnodup : ((membersOf s.entries).map Prod.fst ++ s.tables.map Prod.fst).Nodup := by
    rwa [hfirst]
  have htables := adds_tables hnodup fun g hg => (h.groups g.2
    (List.mem_cons_of_mem _ (List.mem_append_left _ (List.mem_map_of_mem hg)))).nodup
  refine htables.append (adds_tablesOf ?_ fun entries hmem => (h.groups entries
    (List.mem_cons_of_mem _ (List.mem_append_right _ hmem))).nodup)
  intro hmem
  refine hname s.arrayName ?_ s.arrayName List.mem_cons_self rfl
  rw [List.map_append, hfirst] at hmem
  simpa [Function.comp_def] using hmem

/-- A document is read as its members. -/
theorem parse?_text (h : s.Sound) : parse? s.text = some s.members := by
  have hsound := sound_lines h
  have hlines := lines?_written hsound (Nat.lt_succ_of_le (length_le_flatMap _))
  have hroot : addSection? .root (plainEntries s.entries).reverse.reverse []
      = some (membersOf s.entries) := by
    rw [List.reverse_reverse]
    exact addEntries?_nil (h.groups s.entries List.mem_cons_self).nodup
  obtain ⟨header, entries, root, hclosed, hassemble⟩ := adds_sections h .root _ [] [] hroot
  rw [parse?, text, String.toList_ofList, skipMark_written hsound]
  change (lines? _ _).bind _ = _
  rw [hlines, Option.bind_some, List.map_append, assemble?_entryLines, List.append_nil,
    ← List.append_nil (s.sections.map Written.line), hassemble]
  exact hclosed

end Sheet

end TokenMarket.Toml

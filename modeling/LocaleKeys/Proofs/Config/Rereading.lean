/-
Reading a configuration that was written.

A configuration is written as one object with the settings in it, and its
fields are read again where they stand. The fields that say which files are
sources are read from the text; the others are read as values first and are
taken apart when the object is closed. Every field is written, so nothing of
what is usual remains.

The paths of the locales can be said under two more names, and one path need
not be listed (`Config.read_written`).
-/
import LocaleKeys.Config.Writer
import LocaleKeys.Proofs.Json.Rereading

set_option autoImplicit false

namespace LocaleKeys

open LocaleKeys.Json

/-! ## Values of fields

Each setting is written as a value of its kind and read back by the function
for that kind. That the members are heeded is said with `Settings.taking`:
reading a member that says a field gives the settings that field. The members
come in any order and under any of their names, so what is asked of them is
only that they say the fields (`SaidBy`), each once. Since all fields are said,
what the settings were before does not matter (`foldl_taking_all`). -/

/-- A list of texts is read as the texts. -/
theorem stringsOf_listed (ss : List String) : stringsOf (listed ss) = .ok ss := by
  show (ss.map Value.string).mapM stringOf = .ok ss
  induction ss with
  | nil => rfl
  | cons s ss ih =>
    rw [List.map_cons, List.mapM_cons]
    exact bind_eq_ok_iff.mpr ⟨s, rfl, bind_eq_ok_iff.mpr ⟨ss, ih, rfl⟩⟩

/-- So it is where a single text would do. -/
theorem oneOrManyOf_listed (ss : List String) : oneOrManyOf (listed ss) = .ok ss := by
  have hmany := stringsOf_listed ss
  rw [listed] at hmany ⊢
  rw [oneOrManyOf, hmany]
  exact fun s hs => nomatch hs

/-- A time of 64 bits is read as itself. -/
theorem millisecondsOf_toNat (n : UInt64) : millisecondsOf (.number (.integer n.toNat)) = .ok n := by
  rw [millisecondsOf, if_pos (Int.natCast_nonneg _), Int.toNat_natCast]
  exact congrArg Except.ok UInt64.ofNat_toNat

/-- The settings with a field as other settings have it. -/
def Settings.taking (s : Settings) (field : SettingsField) (other : Settings) : Settings :=
  match field with
  | .enabled => { s with enabled := other.enabled }
  | .supportedLocales => { s with supportedLocales := other.supportedLocales }
  | .hookNames => { s with hookNames := other.hookNames }
  | .accessorKeys => { s with accessorKeys := other.accessorKeys }
  | .localePaths => { s with localePaths := other.localePaths }
  | .debounceMs => { s with debounceMs := other.debounceMs }
  | .pollIntervalMs => { s with pollIntervalMs := other.pollIntervalMs }

/-- The member says what the field is in these settings, under one of the names
of the field. -/
def Settings.SaidBy (s : Settings) (m : String × Value) (field : SettingsField) : Prop :=
  SettingsField.ofName? m.1 = some field ∧ ∀ s' : Settings, s'.setField field m.2 = .ok (s'.taking field s)

/-- Every field is said by what is written for it. -/
theorem Settings.saidBy_field (s : Settings) (field : SettingsField) :
    s.SaidBy (field.name, s.field field) field := by
  constructor
  · cases field <;> rfl
  · intro s'
    show s'.setField field (s.field field) = _
    cases field <;>
      simp only [Settings.setField, Settings.field, boolOf, stringsOf_listed, oneOrManyOf_listed,
        millisecondsOf_toNat] <;>
      rfl

/-- Members that say different fields are all heeded. The induction is on the
members, with the fields that are already set. -/
theorem Settings.setMembers_of_said {s : Settings} {members : List (String × Value)}
    {fields : List SettingsField} (h : List.Forall₂ s.SaidBy members fields) (s' : Settings)
    {done : List SettingsField} (hdistinct : (done ++ fields).Nodup) :
    Settings.setMembers members s' done = .ok (fields.foldl (fun s' field => s'.taking field s) s') := by
  induction h generalizing s' done with
  | nil => rfl
  | @cons m field members fields hm hmembers ih =>
    obtain ⟨hname, hset⟩ := hm
    -- the fields differ, so that the next one has not been set before
    have hnew : done.contains field = false := by
      rw [List.nodup_append] at hdistinct
      simp only [List.contains_eq_mem, decide_eq_false_iff_not]
      exact fun hmem => hdistinct.2.2 _ hmem _ List.mem_cons_self rfl
    have hrest : (field :: done ++ fields).Nodup :=
      (List.perm_middle.nodup_iff.mp hdistinct)
    rw [Settings.setMembers, hname]
    simp only [hnew, hset, Bool.false_eq_true, if_false]
    exact ih (s'.taking field s) hrest

/-- Settings have no other fields than those. -/
theorem Settings.foldl_taking_all (s s' : Settings) :
    SettingsField.all.foldl (fun s' field => s'.taking field s) s' = s := rfl

/-! ## Fields in a text

Three fields are read right where they stand, with readers of their own. Each
needs what `reads_written` says of values, but for its own reader: that it
takes in what is written for the field, blanks in front included. -/

/-- A list of texts, as it is written. -/
theorem written_listed (style : Style) (level : Nat) (ss : List String) :
    written style level (listed ss) = '[' :: listText style level (ss.map quoted) := by
  rw [listed, written_array, List.map_map]
  rfl

/-- A quoted text begins as a value does. -/
theorem opens_quoted (s : String) : Opens (quoted s) := ⟨'"', _, rfl, by decide, by decide⟩

/-- A text is read as itself. -/
theorem reads_stringAt (s : String) : Reads stringAt (quoted s) s := by
  intro rest i _
  obtain ⟨j, hj⟩ := stringFrom_quoted s (i + 1) rest
  rw [quoted_append]
  exact ⟨j, hj⟩

/-- A list of texts is read as the texts. -/
theorem readsValue_stringsAt (style : Style) (level : Nat) (ss : List String) :
    ReadsValue stringsAt (written style level (listed ss)) ss := by
  have hitems : List.Forall₂ (fun text s => Opens text ∧ Reads stringAt text s) (ss.map quoted) ss := by
    rw [List.forall₂_map_left_iff, List.forall₂_same]
    exact fun s _ => ⟨opens_quoted s, reads_stringAt s⟩
  have hreads : Reads stringsAt (written style level (listed ss)) ss := by
    intro rest i _
    rw [written_listed]
    exact reads_elements style level hitems rest (i + 1)
  refine hreads.readsValue ⟨'[', _, written_listed .., by decide, by decide⟩ ?_
  intro s s' hs
  rw [stringsAt, stringsAt, hs]

/-- A truth value is read as itself. -/
theorem readsValue_boolAt (style : Style) (level : Nat) (b : Bool) :
    ReadsValue boolAt (written style level (.bool b)) b := by
  have hreads : Reads boolAt (written style level (.bool b)) b := by
    intro rest i _
    cases b with
    | false => exact ⟨i + 5, rfl⟩
    | true => exact ⟨i + 4, rfl⟩
  refine hreads.readsValue (opens_written style level (@Plain.bool 0 b)) ?_
  intro s s' hs
  rw [boolAt, boolAt, hs]

/-- The names of the fields that are read where they stand. -/
def sourceFields : List String := ["includes", "ignores", "ignoreTestFiles"]

/-- A member whose value is read behind its colon is taken in. -/
theorem reads_member {α : Type} {reader : Stand → Except Fault (α × Stand)} {text : List Char} {a : α}
    (h : ReadsValue reader text a) {c c' : ConfigDraft} {name : String}
    (hread : ∀ s s' s'', colon s = .ok s' → reader s' = .ok (a, s'') → c.read name s = .ok (c', s''))
    (style : Style) : Reads (c.read name) (style.colon ++ text) c' := by
  intro rest i hrest
  obtain ⟨j, hj⟩ := h.behind_colon style rest i hrest
  obtain ⟨s, hs, hv⟩ := bind_eq_ok_iff.mp hj
  exact ⟨j, hread _ s _ hs hv⟩

/-- Members of other names are put aside. -/
theorem taken_others {style : Style} {level : Nat} {members : List (String × Value)}
    (h : ∀ m ∈ members, m.1 ∉ sourceFields ∧ Plain (greatestDepth - 1) m.2) (c : ConfigDraft) :
    Taken ConfigDraft.read c (members.map (style.entry level))
      { c with others := members.reverse ++ c.others } := by
  induction members generalizing c with
  | nil => exact .none c
  | cons m members ih =>
    rw [List.forall_mem_cons] at h
    obtain ⟨⟨hname, hplain⟩, hmembers⟩ := h
    -- a name that is not one of the three leads to the last branch of the
    -- reader
    have hread : ∀ s s' s'', colon s = .ok s' → valueFrom (greatestDepth - 1) s' = .ok (m.2, s'') →
        c.read m.1 s = .ok ({ c with others := m :: c.others }, s'') := by
      intro s s' s'' hs hv
      rw [ConfigDraft.read]
      · exact bind_eq_ok_iff.mpr ⟨s', hs, bind_eq_ok_iff.mpr ⟨_, hv, rfl⟩⟩
      all_goals exact fun heq => hname (by rw [heq]; decide)
    have hfirst := reads_member (reads_written hplain style level) hread style
    have hothers := ih hmembers { c with others := m :: c.others }
    rw [List.reverse_cons, List.append_assoc, List.singleton_append]
    exact .more hfirst hothers

/-- The members that say which files are sources. -/
def Config.sourceMembers (c : Config) : List (String × Value) :=
  [("includes", listed c.includes), ("ignores", listed c.ignores),
    ("ignoreTestFiles", .bool c.ignoreTestFiles)]

/-- The members that say which files are sources are read, as none of them was
there before. -/
theorem taken_sources (style : Style) (level : Nat) (c : Config) (others : List (String × Value)) :
    Taken ConfigDraft.read { others := others }
      (c.sourceMembers.map (style.entry level))
      ⟨some c.includes, some c.ignores, some c.ignoreTestFiles, others⟩ := by
  -- each of the three is read while the ones behind it are still missing
  have hincludes : Reads (ConfigDraft.read ⟨none, none, none, others⟩ "includes")
      (style.colon ++ written style level (listed c.includes)) ⟨some c.includes, none, none, others⟩ := by
    refine reads_member (readsValue_stringsAt style level c.includes) ?_ style
    exact fun s s' s'' hs hv => bind_eq_ok_iff.mpr ⟨s', hs, bind_eq_ok_iff.mpr ⟨_, hv, rfl⟩⟩
  have hignores : Reads (ConfigDraft.read ⟨some c.includes, none, none, others⟩ "ignores")
      (style.colon ++ written style level (listed c.ignores))
      ⟨some c.includes, some c.ignores, none, others⟩ := by
    refine reads_member (readsValue_stringsAt style level c.ignores) ?_ style
    exact fun s s' s'' hs hv => bind_eq_ok_iff.mpr ⟨s', hs, bind_eq_ok_iff.mpr ⟨_, hv, rfl⟩⟩
  have htests : Reads
      (ConfigDraft.read ⟨some c.includes, some c.ignores, none, others⟩ "ignoreTestFiles")
      (style.colon ++ written style level (.bool c.ignoreTestFiles))
      ⟨some c.includes, some c.ignores, some c.ignoreTestFiles, others⟩ := by
    refine reads_member (readsValue_boolAt style level c.ignoreTestFiles) ?_ style
    exact fun s s' s'' hs hv => bind_eq_ok_iff.mpr ⟨s', hs, bind_eq_ok_iff.mpr ⟨_, hv, rfl⟩⟩
  exact .more hincludes (.more hignores (.more htests (.none _)))

/-! ## Whole configurations

A written configuration has the settings in front and the sources behind them.
Changing how the paths of the locales are said changes one member, and the
claims below are about the result of that: every name that the field has is
accepted, and a single text is as good as a list of one. -/

/-- An object is read as the configuration if its members say all settings and
then which files are sources. -/
theorem Config.read_of_said (c : Config) {members : List (String × Value)}
    (hsaid : List.Forall₂ c.settings.SaidBy members SettingsField.all)
    (hmembers : ∀ m ∈ members, m.1 ∉ sourceFields ∧ Plain (greatestDepth - 1) m.2) (style : Style) :
    Config.read ((Value.object (members ++ c.sourceMembers)).render style).toList = .ok c := by
  have htaken : Taken ConfigDraft.read {} ((members ++ c.sourceMembers).map (style.entry 2))
      ⟨some c.includes, some c.ignores, some c.ignoreTestFiles, members.reverse⟩ := by
    have hothers : Taken ConfigDraft.read {} (members.map (style.entry 2))
        { others := members.reverse ++ [] } := taken_others hmembers {}
    rw [List.append_nil] at hothers
    rw [List.map_append]
    exact hothers.append (taken_sources style 2 c members.reverse)
  have hset : Settings.setMembers members {} [] = .ok c.settings := by
    rw [Settings.setMembers_of_said hsaid {} (by decide), Settings.foldl_taking_all]
  obtain ⟨j, hj⟩ := reads_members style 1 htaken [] 1
  rw [List.append_nil] at hj
  rw [Value.render, String.toList_ofList, written_object, Config.read, Stand.start,
    skipBlanks_cons (by decide)]
  simp only [Stand.drop, List.drop_succ_cons, List.drop_zero, Nat.zero_add, Nat.reduceAdd, hj, bind,
    Except.bind, List.reverse_reverse, hset]
  rfl

/-- A member of this name is exchanged for another one. -/
def exchanged (key : String) (m : String × Value) (m' : String × Value) : String × Value :=
  if m'.1 == key then m else m'

/-- The object with the member of this name exchanged for another one. -/
def Json.Value.exchange (key : String) (m : String × Value) : Value → Value
  | .object members => .object (members.map (exchanged key m))
  | v => v

/-- A list of texts comes back when it is read. -/
theorem plain_listed (ss : List String) : Plain (greatestDepth - 1) (listed ss) := by
  refine .array ?_
  rintro v hv
  obtain ⟨s, -, rfl⟩ := List.mem_map.mp hv
  exact .string s

/-- So does a time of 64 bits. -/
theorem plain_milliseconds (n : UInt64) : Plain (greatestDepth - 1) (.number (.integer n.toNat)) := by
  have hlt : n.toNat < 2 ^ 64 := n.toNat_lt
  have hgreatest : (greatestInteger : Int) = 2 ^ 64 - 1 := by decide
  exact .integer (by omega) (by omega)

/-- So does the value of every field. -/
theorem Settings.plain_field (s : Settings) (field : SettingsField) :
    Plain (greatestDepth - 1) (s.field field) := by
  cases field with
  | enabled => exact .bool s.enabled
  | supportedLocales => exact plain_listed s.supportedLocales
  | hookNames => exact plain_listed s.hookNames
  | accessorKeys => exact plain_listed s.accessorKeys
  | localePaths => exact plain_listed s.localePaths
  | debounceMs => exact plain_milliseconds s.debounceMs
  | pollIntervalMs => exact plain_milliseconds s.pollIntervalMs

/-- The names that the paths of the locales have. -/
def pathsNames : List String := ["localePaths", "localePath", "localeFilePathTemplate"]

/-- The value says the paths of the locales: it lists them, or is the only one. -/
def Settings.PathsSaidBy (s : Settings) (v : Value) : Prop :=
  v = listed s.localePaths ∨ ∃ path, s.localePaths = [path] ∧ v = .string path

/-- However the paths are said, they are read. -/
theorem Settings.PathsSaidBy.oneOrManyOf {s : Settings} {v : Value} (h : s.PathsSaidBy v) :
    oneOrManyOf v = .ok s.localePaths := by
  rcases h with rfl | ⟨path, hpath, rfl⟩
  · exact oneOrManyOf_listed s.localePaths
  · exact congrArg Except.ok hpath.symm

/-- However they are said, the value comes back. -/
theorem Settings.PathsSaidBy.plain {s : Settings} {v : Value} (h : s.PathsSaidBy v) :
    Plain (greatestDepth - 1) v := by
  rcases h with rfl | ⟨path, -, rfl⟩
  · exact plain_listed s.localePaths
  · exact .string path

/-- Of the settings, only the paths have the name by which they are exchanged. -/
theorem exchanged_field (m : String × Value) (field : SettingsField) (v : Value) :
    exchanged SettingsField.localePaths.name m (field.name, v)
      = if field = .localePaths then m else (field.name, v) := by
  cases field <;> rfl

/-- The sources are said as before. -/
theorem map_exchanged_sourceMembers (m : String × Value) (c : Config) :
    c.sourceMembers.map (exchanged SettingsField.localePaths.name m) = c.sourceMembers := rfl

/-- No setting has the name of a source field. -/
theorem SettingsField.name_notMem_sourceFields (field : SettingsField) : field.name ∉ sourceFields := by
  cases field <;> decide

/-- Under each of its names, such a value says the field. -/
theorem Settings.PathsSaidBy.saidBy {s : Settings} {paths : Value} (h : s.PathsSaidBy paths)
    {name : String} (hname : name ∈ pathsNames) : s.SaidBy (name, paths) .localePaths := by
  constructor
  · have hall : ∀ name ∈ pathsNames, SettingsField.ofName? name = some .localePaths := by
      decide
    exact hall name hname
  · intro s'
    exact map_eq_ok_iff.mpr ⟨s.localePaths, h.oneOrManyOf, rfl⟩

/-- **A configuration that was written is read as itself**, in either layout
and whatever is in it, and so it is if its paths are said under another of
their names, and where there is one path if it stands for the list. -/
theorem Config.read_written (c : Config) (style : Style) :
    Config.read (c.toValue.render style).toList = .ok c ∧
    ∀ name ∈ pathsNames, ∀ paths, c.settings.PathsSaidBy paths →
      Config.read ((c.toValue.exchange SettingsField.localePaths.name (name, paths)).render
        style).toList = .ok c := by
  -- it is enough that each field is said by some member that is read as a
  -- value
  have hsaid : ∀ m : SettingsField → String × Value,
      (∀ field, c.settings.SaidBy (m field) field ∧ (m field).1 ∉ sourceFields ∧
        Plain (greatestDepth - 1) (m field).2) →
      Config.read ((Value.object (SettingsField.all.map m ++ c.sourceMembers)).render
        style).toList = .ok c := by
    intro m hm
    refine c.read_of_said ?_ ?_ style
    · rw [List.forall₂_map_left_iff, List.forall₂_same]
      exact fun field _ => (hm field).1
    · rintro m' hm'
      obtain ⟨field, -, rfl⟩ := List.mem_map.mp hm'
      exact (hm field).2
  have hown : ∀ field, c.settings.SaidBy (field.name, c.settings.field field) field ∧
      field.name ∉ sourceFields ∧ Plain (greatestDepth - 1) (c.settings.field field) :=
    fun field => ⟨c.settings.saidBy_field field, field.name_notMem_sourceFields,
      c.settings.plain_field field⟩
  refine ⟨hsaid _ hown, ?_⟩
  intro name hname paths hpaths
  have hobject : c.toValue.exchange SettingsField.localePaths.name (name, paths)
      = .object (SettingsField.all.map (fun field =>
          if field = .localePaths then (name, paths) else (field.name, c.settings.field field))
        ++ c.sourceMembers) := by
    show Value.object (List.map _ (c.settings.members ++ c.sourceMembers)) = _
    rw [List.map_append, map_exchanged_sourceMembers, Settings.members, List.map_map]
    simp only [Function.comp_def, exchanged_field]
  rw [hobject]
  refine hsaid _ ?_
  intro field
  -- the exchanged member says the paths, and all others say what they said
  by_cases hfield : field = .localePaths
  · rw [if_pos hfield, hfield]
    have hother : ∀ name ∈ pathsNames, name ∉ sourceFields := by decide
    exact ⟨hpaths.saidBy hname, hother name hname, hpaths.plain⟩
  · rw [if_neg hfield]
    exact hown field

/-- The paths of a project that has only one, said without a list and under
another name. -/
theorem Config.read_written_of_one_path :
    let c : Config := { settings := { localePaths := ["locales/" ++ localePlaceholder ++ ".json"] } }
    "localeFilePathTemplate" ∈ pathsNames ∧
    c.settings.PathsSaidBy (.string ("locales/" ++ localePlaceholder ++ ".json")) ∧
    Config.read ((c.toValue.exchange SettingsField.localePaths.name
      ("localeFilePathTemplate", .string ("locales/" ++ localePlaceholder ++ ".json"))).render
        .compact).toList = .ok c := by
  intro c
  have hname : "localeFilePathTemplate" ∈ pathsNames := by decide
  have hpaths : c.settings.PathsSaidBy (.string ("locales/" ++ localePlaceholder ++ ".json")) :=
    .inr ⟨_, rfl, rfl⟩
  exact ⟨hname, hpaths, (c.read_written .compact).2 _ hname _ hpaths⟩

end LocaleKeys

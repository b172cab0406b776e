import Mathlib.Data.List.Basic
import SchemaHighlighter.Settings.OfJson

/-! # What settings come to

A value is read through look-ups by name alone, so members that no look-up asks for make no
difference. Each entry is a command and arguments, either of which may be missing. A platform's
entry is looked at before the default one, and that for the command and for the arguments
separately. -/
namespace SchemaHighlighter

namespace JsonValue

/-- The member of an object under a name. -/
def get? (name : String) : JsonValue → Option JsonValue
  | object members => members.lookup name
  | _ => none

/-- What stands under names one within the other. -/
def at? : List String → JsonValue → Option JsonValue
  | [], v => some v
  | name :: path, v => (v.get? name).bind (at? path)

/-- An object, which names each of its members once. -/
def IsObject (v : JsonValue) : Prop :=
  ∃ members, v = object members ∧ (members.map Prod.fst).Nodup

/-- An entry may lack its command and its arguments, or leave them null. -/
structure IsEntry (v : JsonValue) : Prop where
  isObject : v.IsObject
  command : ∀ w, v.get? "command" = some w → w = null ∨ ∃ text, w = string text
  args : ∀ w, v.get? "args" = some w →
    w = null ∨ ∃ texts : List String, w = array (texts.map string)

/-- The objects that lead to the entries may be missing and may have further members. -/
structure IsSettings (v : JsonValue) : Prop where
  objects : ∀ front, front <+: Settings.path → ∀ w, v.at? front = some w → w.IsObject
  entries : ∀ key w, v.at? (Settings.path ++ [key]) = some w → w.IsEntry

variable {v w : JsonValue} {members : List (String × JsonValue)} {name key : String}
  {path : List String}

theorem at?_append (path path' : List String) (v : JsonValue) :
    v.at? (path ++ path') = (v.at? path).bind (at? path') := by
  induction path generalizing v with
  | nil => rfl
  | cons name path ih =>
    rw [List.cons_append, at?, at?, Option.bind_assoc]
    congr
    funext w
    exact ih w

theorem at?_singleton (name : String) (v : JsonValue) : v.at? [name] = v.get? name := by
  rw [at?]
  cases v.get? name <;> rfl

theorem lookup_cons_ne {other : String} {rest : List (String × JsonValue)}
    (different : name ≠ other) : ((other, v) :: rest).lookup name = rest.lookup name := by
  rw [List.lookup_cons, beq_false_of_ne different]

theorem lookup_of_not_mem (absent : name ∉ members.map Prod.fst) :
    members.lookup name = none := by
  rw [List.lookup_eq_none_iff]
  intro m member
  rw [bne_iff_ne]
  rintro rfl
  exact absent (List.mem_map_of_mem member)

theorem lookup_of_mem (distinct : (members.map Prod.fst).Nodup) (member : (name, v) ∈ members) :
    members.lookup name = some v := by
  induction members with
  | nil => cases member
  | cons first rest ih =>
    obtain ⟨new, distinct⟩ := List.nodup_cons.1 distinct
    rcases List.mem_cons.1 member with rfl | later
    · exact List.lookup_cons_self
    · have different : name ≠ first.1 := by
        rintro rfl
        exact new (List.mem_map.2 ⟨_, later, rfl⟩)
      rw [lookup_cons_ne different, ih distinct later]

theorem valuesOf_cons (name key : String) (v : JsonValue) (rest : List (String × JsonValue)) :
    valuesOf name ((key, v) :: rest) =
      if key = name then v :: valuesOf name rest else valuesOf name rest := by
  by_cases here : key = name
  · rw [if_pos here]
    exact List.filterMap_cons_some (if_pos here)
  · rw [if_neg here]
    exact List.filterMap_cons_none (if_neg here)

theorem valuesOf_of_nodup (distinct : (members.map Prod.fst).Nodup) (name : String) :
    valuesOf name members = (members.lookup name).toList := by
  induction members with
  | nil => rfl
  | cons first rest ih =>
    obtain ⟨key, v⟩ := first
    obtain ⟨new, distinct⟩ := List.nodup_cons.1 distinct
    rw [valuesOf_cons, ih distinct]
    by_cases here : key = name
    · subst here
      rw [if_pos rfl, lookup_of_not_mem new, List.lookup_cons_self]
      rfl
    · rw [if_neg here, lookup_cons_ne (Ne.symm here)]

theorem member?_of_nodup (distinct : (members.map Prod.fst).Nodup) (name : String) :
    member? name members = some (members.lookup name) := by
  rw [member?, valuesOf_of_nodup distinct]
  cases members.lookup name <;> rfl

theorem IsObject.get?_eq (h : v.IsObject) (names : List String) :
    fields? names v = some (names.map fun name => v.get? name) := by
  obtain ⟨members, rfl, distinct⟩ := h
  simp only [fields?, member?_of_nodup distinct]
  exact List.mapM_pure

/-- What is there is read, and null stands for nothing. -/
theorem optional?_eq {α : Type} {read : JsonValue → Option α} {o : Option JsonValue}
    (unread : read null = none) (h : ∀ w, o = some w → w = null ∨ ∃ a, read w = some a) :
    optional? read o = some (o.bind read) := by
  cases o with
  | none => rfl
  | some w =>
    rcases h w rfl with rfl | ⟨a, found⟩
    · rw [Option.bind_some, unread]
      rfl
    · have something : w ≠ null := by
        rintro rfl
        rw [unread] at found
        cases found
      rw [Option.bind_some, optional?, found]
      · rfl
      · exact something

theorem strings?_texts (texts : List String) :
    strings? (array (texts.map string)) = some texts := by
  rw [strings?, List.mapM_map]
  exact List.mapM_pure.trans (by simp)

end JsonValue

namespace ExecutableEntry

open JsonValue

variable {v : JsonValue}

/-- The entry that a value holds, with what it lacks left out. -/
def ofValue (v : JsonValue) : ExecutableEntry :=
  ⟨(v.get? "command").bind string?, (v.get? "args").bind strings?⟩

theorem ofJson?_eq (h : v.IsEntry) : ofJson? v = some (ofValue v) := by
  have command : optional? string? (v.get? "command") = some ((v.get? "command").bind string?) := by
    apply optional?_eq rfl
    intro w found
    rcases h.command w found with rfl | ⟨text, rfl⟩
    · exact .inl rfl
    · exact .inr ⟨text, rfl⟩
  have args : optional? strings? (v.get? "args") = some ((v.get? "args").bind strings?) := by
    apply optional?_eq rfl
    intro w found
    rcases h.args w found with rfl | ⟨texts, rfl⟩
    · exact .inl rfl
    · exact .inr ⟨texts, strings?_texts texts⟩
  rw [ofJson?, h.isObject.get?_eq]
  simp only [List.map_cons, List.map_nil, Option.bind_eq_bind, Option.bind_some]
  rw [command, args]
  rfl

end ExecutableEntry

namespace Settings

open JsonValue

variable {s : Settings} {v : JsonValue} {members : List (String × JsonValue)} {name p : String}

theorem lookup_filter_ne {α : Type} (entries : List (String × α)) (name p : String) :
    (entries.filter (·.1 ≠ name)).lookup p = if p = name then none else entries.lookup p := by
  induction entries with
  | nil => simp
  | cons first rest ih =>
    obtain ⟨key, a⟩ := first
    by_cases here : key = name
    · rw [List.filter_cons_of_neg (by simpa using here), ih]
      by_cases same : p = name
      · rw [if_pos same, if_pos same]
      · have different : p ≠ key := by rwa [here]
        rw [if_neg same, if_neg same, List.lookup_cons, beq_false_of_ne different]
    · rw [List.filter_cons_of_pos (by simpa using here)]
      by_cases same : p = key
      · subst same
        rw [if_neg here, List.lookup_cons_self, List.lookup_cons_self]
      · rw [List.lookup_cons, List.lookup_cons, beq_false_of_ne same, ih]

theorem lookup_put (s : Settings) (name p : String) (entry : ExecutableEntry) :
    (s.put name entry).platforms.lookup p =
      if p = name then some entry else s.platforms.lookup p := by
  rw [put, List.lookup_append, lookup_filter_ne]
  by_cases same : p = name
  · subst same
    rw [if_pos rfl, if_pos rfl, List.lookup_cons_self, Option.none_or]
  · rw [if_neg same, if_neg same, List.lookup_cons, beq_false_of_ne same, List.lookup_nil,
      Option.or_none]

/-- Every platform of a table is taken in, and the default entry is left alone. -/
theorem exists_putAll? (distinct : (members.map Prod.fst).Nodup)
    (entries : ∀ m ∈ members, m.2.IsEntry) (s : Settings) :
    ∃ s', s.putAll? members = some s' ∧ s'.default = s.default ∧
      ∀ p, s'.platforms.lookup p =
        ((members.lookup p).map ExecutableEntry.ofValue).or (s.platforms.lookup p) := by
  induction members generalizing s with
  | nil => exact ⟨s, rfl, rfl, fun p => rfl⟩
  | cons first rest ih =>
    obtain ⟨name, v⟩ := first
    obtain ⟨new, distinct⟩ := List.nodup_cons.1 distinct
    obtain ⟨here, entries⟩ := List.forall_mem_cons.1 entries
    obtain ⟨s', taken, kept, found⟩ := ih distinct entries (s.put name (.ofValue v))
    refine ⟨s', ?_, kept, ?_⟩
    · rw [putAll?, ExecutableEntry.ofJson?_eq here]
      exact taken
    · intro p
      rw [found, lookup_put]
      by_cases same : p = name
      · subst same
        rw [if_pos rfl, lookup_of_not_mem new, List.lookup_cons_self]
        rfl
      · rw [if_neg same, lookup_cons_ne same]

/-- The settings hold these entries, the default one apart from those of the platforms. -/
structure Holds (s : Settings) (entry : String → Option ExecutableEntry) : Prop where
  default : s.default = (entry "default").getD {}
  platforms : ∀ p, s.platforms.lookup p = if p = "default" then none else entry p

theorem exists_ofTable? (table : v.IsObject) (entries : ∀ key w, v.get? key = some w → w.IsEntry) :
    ∃ s, ofTable? v = some s ∧ s.Holds fun key => (v.get? key).map ExecutableEntry.ofValue := by
  obtain ⟨members, rfl, distinct⟩ := table
  have distinct' : ((members.filter (·.1 ≠ "default")).map Prod.fst).Nodup :=
    (List.filter_sublist.map Prod.fst).nodup distinct
  have entries' : ∀ m ∈ members.filter (·.1 ≠ "default"), m.2.IsEntry := by
    rintro ⟨key, w⟩ member
    exact entries key w (lookup_of_mem distinct (List.mem_filter.1 member).1)
  obtain ⟨s, taken, kept, found⟩ := exists_putAll? distinct' entries'
    { default := ((members.lookup "default").map ExecutableEntry.ofValue).getD {} }
  refine ⟨s, ?_, kept, ?_⟩
  · simp only [ofTable?, member?_of_nodup distinct, Option.bind_eq_bind, Option.bind_some]
    cases standard : members.lookup "default" with
    | none =>
      rw [standard] at taken
      exact taken
    | some w =>
      rw [standard] at taken
      simp only [ExecutableEntry.ofJson?_eq (entries "default" w standard), Option.bind_some]
      exact taken
  · intro p
    rw [found, lookup_filter_ne]
    by_cases same : p = "default"
    · rw [if_pos same, if_pos same]
      rfl
    · rw [if_neg same, if_neg same]
      exact Option.or_none

/-- The path leads to a table that is read, or to nothing, and then there are no entries. -/
theorem ofPath?_eq {path : List String}
    (objects : ∀ front, front <+: path → ∀ w, v.at? front = some w → w.IsObject) :
    ofPath? path v = match v.at? path with
      | some table => ofTable? table
      | none => some {} := by
  induction path generalizing v with
  | nil => rfl
  | cons name path ih =>
    have root : v.IsObject := objects [] List.nil_prefix v rfl
    rw [ofPath?, root.get?_eq]
    cases found : v.get? name with
    | none => simp [found, at?]
    | some w =>
      have inner : ∀ front, front <+: path → ∀ u, w.at? front = some u → u.IsObject := by
        intro front begins u there
        apply objects (name :: front) (List.cons_prefix_cons.2 ⟨rfl, begins⟩)
        rw [at?, found]
        exact there
      simp [found, at?, ih inner]

/-- Settings are read, and they hold what stands in the table. -/
theorem exists_ofJson? (h : v.IsSettings) : ∃ s, ofJson? v = some s ∧
    s.Holds fun key => (v.at? (path ++ [key])).map ExecutableEntry.ofValue := by
  have read := ofPath?_eq h.objects
  simp only [at?_append]
  cases found : v.at? path with
  | none =>
    rw [found] at read
    refine ⟨{}, read, rfl, ?_⟩
    intro p
    by_cases same : p = "default"
    · rw [if_pos same]
      rfl
    · rw [if_neg same]
      rfl
  | some table =>
    rw [found] at read
    have entries : ∀ key w, table.get? key = some w → w.IsEntry := by
      intro key w there
      apply h.entries key w
      rw [at?_append, found, Option.bind_some, at?_singleton, there]
    obtain ⟨s, taken, holds⟩ := exists_ofTable? (h.objects path List.prefix_rfl table found) entries
    refine ⟨s, read.trans taken, ?_⟩
    simp only [Option.bind_some, at?_singleton]
    exact holds

/-! ## Resolution -/

variable {entry : String → Option ExecutableEntry}

/-- The entries of a platform are its own and the default one, also for a platform of that name. -/
theorem findSome?_levels {α : Type} (holds : s.Holds entry) (p : String)
    {look : ExecutableEntry → Option α} (blank : look {} = none) :
    (s.levels p).findSome? look = [p, "default"].findSome? fun key => (entry key).bind look := by
  have last : look s.default = (entry "default").bind look := by
    rw [holds.default]
    cases entry "default" with
    | none => exact blank
    | some e => rfl
  rw [levels, holds.platforms]
  by_cases same : p = "default"
  · subst same
    simp only [if_true, Option.toList_none, List.nil_append, List.findSome?_cons,
      List.findSome?_nil, last]
    cases (entry "default").bind look <;> rfl
  · rw [if_neg same]
    cases found : entry p with
    | none =>
      simp only [Option.toList_none, List.nil_append, List.findSome?_cons, List.findSome?_nil,
        found, last, Option.bind_none]
    | some e =>
      simp only [Option.toList_some, List.singleton_append, List.findSome?_cons,
        List.findSome?_nil, found, last, Option.bind_some]

theorem find?_filterMap_eq {α β : Type} (look : α → Option β) (kind : β → Bool) (l : List α) :
    (l.filterMap look).find? kind = l.findSome? fun a => (look a).filter kind := by
  rw [← List.head?_filter, List.filter_filterMap, List.head?_filterMap]

/-- What the entries of a platform give for a field, its own entry before the default one. -/
def given {α : Type} (read : JsonValue → Option α) (field : String) (v : JsonValue)
    (platform : String) : List α :=
  [platform, "default"].filterMap fun key => (v.at? (path ++ [key, field])).bind read

def commands : JsonValue → String → List String := given string? "command"

def argumentLists : JsonValue → String → List (List String) := given strings? "args"

theorem at?_member (key name : String) (v : JsonValue) :
    v.at? (path ++ [key, name]) = (v.at? (path ++ [key])).bind (get? name) := by
  have split : path ++ [key, name] = path ++ [key] ++ [name] := by
    rw [List.append_assoc, List.singleton_append]
  rw [split, at?_append]
  congr
  funext w
  exact at?_singleton name w

theorem executableFor_eq
    (holds : s.Holds fun key => (v.at? (path ++ [key])).map ExecutableEntry.ofValue) (p : String) :
    s.executableFor p = ⟨((commands v p).find? (· ≠ "")).getD defaultServerCommand,
      (argumentLists v p).head?.getD []⟩ := by
  have command : ((s.levels p).findSome? fun e => e.command.filter (· ≠ "")) =
      (commands v p).find? (· ≠ "") := by
    rw [findSome?_levels holds p rfl, commands, given, find?_filterMap_eq]
    congr
    funext key
    rw [at?_member]
    cases v.at? (path ++ [key]) <;> rfl
  have args : (s.levels p).findSome? (·.args) = (argumentLists v p).head? := by
    rw [findSome?_levels holds p rfl, argumentLists, given, List.head?_filterMap]
    congr
    funext key
    rw [at?_member]
    cases v.at? (path ++ [key]) <;> rfl
  rw [executableFor, command, args]

/-- What a field is given depends on nothing but that field of two entries. -/
theorem given_congr {α : Type} (read : JsonValue → Option α) {field : String} {v' : JsonValue}
    (same : ∀ key ∈ [p, "default"], v'.at? (path ++ [key, field]) = v.at? (path ++ [key, field])) :
    given read field v' p = given read field v p := by
  apply List.filterMap_congr
  intro key member
  rw [same key member]

/-- Settings are read whatever other members they have. A platform is started with the first
command that is not empty and with the first arguments that are given, and neither the other
field nor the entry of another platform counts. -/
theorem settings_resolve (h : v.IsSettings) : ∃ s, ofJson? v = some s ∧ ∀ p,
    s.executableFor p = ⟨((commands v p).find? (· ≠ "")).getD "ecsact_lsp_server",
      (argumentLists v p).head?.getD []⟩ ∧
    (s.executableFor p).command ≠ "" ∧
    ∀ v' s', v'.IsSettings → ofJson? v' = some s' →
      ((∀ key ∈ [p, "default"],
          v'.at? (path ++ [key, "command"]) = v.at? (path ++ [key, "command"])) →
        (s'.executableFor p).command = (s.executableFor p).command) ∧
      ((∀ key ∈ [p, "default"],
          v'.at? (path ++ [key, "args"]) = v.at? (path ++ [key, "args"])) →
        (s'.executableFor p).args = (s.executableFor p).args) := by
  obtain ⟨s, read, holds⟩ := exists_ofJson? h
  refine ⟨s, read, ?_⟩
  intro p
  have resolved := executableFor_eq holds p
  refine ⟨resolved, ?_, ?_⟩
  · rw [resolved]
    cases found : (commands v p).find? (· ≠ "") with
    | none => exact (by decide : defaultServerCommand ≠ "")
    | some command =>
      have something := List.find?_some found
      exact of_decide_eq_true something
  · intro v' s' h' read'
    obtain ⟨t, again, holds'⟩ := exists_ofJson? h'
    obtain rfl : t = s' := Option.some.inj (again.symm.trans read')
    rw [executableFor_eq holds' p, resolved]
    constructor
    · intro same
      rw [commands, given_congr string? same]
    · intro same
      rw [argumentLists, given_congr strings? same]

/-- An empty command gives way to the default one, an empty list of arguments does not, and null is
as good as nothing. -/
theorem settings_resolve_of_empty :
    let linux := object [("args", null), ("env", object [])]
    let standard := object [("command", string "server"), ("args", array [string "--stdio"])]
    let windows := object [("command", string ""), ("args", array [])]
    let table := object [("linux", linux), ("default", standard), ("win32", windows)]
    let v := object [("editor", number), ("ecsact", object [("trace", null),
      ("lsp", object [("executable", table)])])]
    v.IsSettings ∧ ∃ s, ofJson? v = some s ∧
      s.executableFor "linux" = ⟨"server", ["--stdio"]⟩ ∧
      s.executableFor "win32" = ⟨"server", []⟩ ∧
      s.executableFor "default" = ⟨"server", ["--stdio"]⟩ := by
  intro linux standard windows table v
  have linux' : linux.IsEntry := by
    refine ⟨⟨_, rfl, by decide⟩, ?_, ?_⟩ <;> intro w found <;> cases found
    exact .inl rfl
  have standard' : standard.IsEntry := by
    refine ⟨⟨_, rfl, by decide⟩, ?_, ?_⟩ <;> intro w found <;> cases found
    · exact .inr ⟨"server", rfl⟩
    · exact .inr ⟨["--stdio"], rfl⟩
  have windows' : windows.IsEntry := by
    refine ⟨⟨_, rfl, by decide⟩, ?_, ?_⟩ <;> intro w found <;> cases found
    · exact .inr ⟨"", rfl⟩
    · exact .inr ⟨[], rfl⟩
  have settings : v.IsSettings := by
    constructor
    · rintro front ⟨rest, split⟩ w found
      rcases front with _ | ⟨a, _ | ⟨b, _ | ⟨c, _ | ⟨d, front⟩⟩⟩⟩
      · cases found
        exact ⟨_, rfl, by decide⟩
      · cases split
        cases found
        exact ⟨_, rfl, by decide⟩
      · cases split
        cases found
        exact ⟨_, rfl, by decide⟩
      · cases split
        cases found
        exact ⟨_, rfl, by decide⟩
      · cases split
    · intro key w found
      have listed : table.get? key = some w := by
        rw [at?_append] at found
        exact (at?_singleton key table).symm.trans found
      obtain ⟨before, after, members, -⟩ := List.lookup_eq_some_iff.1 listed
      have member : (key, w) ∈ [("linux", linux), ("default", standard), ("win32", windows)] := by
        rw [members]
        exact List.mem_append_right before (.head _)
      simp only [List.mem_cons, List.not_mem_nil, or_false, Prod.mk.injEq] at member
      rcases member with ⟨-, rfl⟩ | ⟨-, rfl⟩ | ⟨-, rfl⟩
      · exact linux'
      · exact standard'
      · exact windows'
  obtain ⟨s, read, resolved⟩ := settings_resolve settings
  refine ⟨settings, s, read, ?_, ?_, ?_⟩
  · exact (resolved "linux").1
  · exact (resolved "win32").1
  · exact (resolved "default").1

end Settings

end SchemaHighlighter

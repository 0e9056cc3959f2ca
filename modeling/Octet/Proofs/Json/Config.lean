import Octet.Config

/-!
# What a configuration takes from its file

A record is read by its fields: in an object a field is what stands under its name, in an array what stands
at its place (`Json.inField`). No field may be there twice; one that is missing is no error.

A configuration that has been read has in each of its fields the value that stands there, or the default
value if nothing does: `Config.given_of_ofJson?`.
-/

namespace Octet

namespace Json

variable {α β : Type} {v : Json} {name : String} {names : List String} {place : Nat}

/-- All that stands in a field of a record: in an object under its name, in an array at its place. -/
def inField (name : String) (place : Nat) : Json → List Json
  | object members => (members.filter fun m => text? m.1 == some name.toList).map (·.2)
  | array items => items[place]?.toList
  | _ => []

theorem map_eq_of_mapM {f : α → Option β} {xs : List α} {ys : List β} (h : xs.mapM f = some ys) :
    xs.map f = ys.map some := by
  induction xs generalizing ys with
  | nil => cases h; rfl
  | cons x xs ih =>
    rw [List.mapM_cons] at h
    obtain ⟨y, hy, h⟩ := Option.bind_eq_some_iff.mp h
    obtain ⟨rest, hrest, h⟩ := Option.bind_eq_some_iff.mp h
    cases h
    rw [List.map_cons, hy, ih hrest, List.map_cons]

/-- The members of an object are filtered alike before and after their names have been read. -/
theorem filter_namedMembers? {members : List (Pieces × Json)} {named : List (List Char × Json)}
    (h : namedMembers? members = some named) (name : String) :
    (named.filter (·.1 == name.toList)).map (·.2) =
      (members.filter fun m => text? m.1 == some name.toList).map (·.2) := by
  replace h := map_eq_of_mapM h
  induction members generalizing named with
  | nil =>
    obtain rfl := List.map_eq_nil_iff.mp h.symm
    rfl
  | cons m members ih =>
    cases named with
    | nil => cases h
    | cons n named =>
      obtain ⟨hhead, hrest⟩ := List.cons.inj h
      obtain ⟨text, htext, rfl⟩ := Option.map_eq_some_iff.mp hhead
      have hsame : (text? m.1 == some name.toList) = (text == name.toList) := by
        rw [htext]
        rfl
      rw [List.filter_cons, List.filter_cons, hsame]
      split
      · rw [List.map_cons, List.map_cons, ih hrest]
      · exact ih hrest

theorem only?_eq_some {members : List (List Char × Json)} {field : Option Json}
    (h : only? members name = some field) :
    (members.filter (·.1 == name.toList)).map (·.2) = field.toList := by
  unfold only? at h
  split at h
  · next hfilter =>
    cases h
    rw [hfilter]
    rfl
  · next hfilter =>
    cases h
    rw [hfilter]
    rfl
  · cases h

/-- A field that is read is all that stands there. -/
theorem inField_of_fields? {values : List (Option Json)} {field : Option Json}
    (h : v.fields? names = some values) (hname : names[place]? = some name)
    (hfield : values[place]? = some field) : v.inField name place = field.toList := by
  cases v with
  | array items =>
    simp only [fields?, Option.ite_none_right_eq_some, Option.some.injEq] at h
    obtain ⟨-, rfl⟩ := h
    show items[place]?.toList = field.toList
    by_cases hitem : place < items.length
    · rw [List.getElem?_append_left (by rw [List.length_map]; exact hitem), List.getElem?_map] at hfield
      rw [List.getElem?_eq_getElem hitem] at hfield ⊢
      cases hfield
      rfl
    · -- behind the last item all fields are missing
      rw [List.getElem?_append_right (by rw [List.length_map]; omega), List.getElem?_replicate] at hfield
      obtain ⟨-, hnone⟩ := Option.ite_none_right_eq_some.mp hfield
      obtain rfl := Option.some.inj hnone
      rw [List.getElem?_eq_none (Nat.le_of_not_lt hitem)]
  | object members =>
    simp only [fields?] at h
    cases hnamed : namedMembers? members with
    | none => rw [hnamed] at h; cases h
    | some named =>
      rw [hnamed] at h
      have hread := congrArg (·[place]?) (map_eq_of_mapM h)
      simp only [List.getElem?_map, hname, hfield, Option.map_some, Option.some.injEq] at hread
      exact (filter_namedMembers? hnamed name).symm.trans (only?_eq_some hread)
  | null | bool | number | string => cases h

end Json

namespace Config

/-! ## The fields of a configuration -/

variable {v : Json} {config : Config}

/-- The value of a field is what stands there, or the default if nothing does. -/
inductive Takes {α : Type} (default : α) (read : Json → Option α) : List Json → α → Prop where
  | missing : Takes default read [] default
  | given {v : Json} {value : α} (h : read v = some value) : Takes default read [v] value

/-- Every field of the configuration has the value that stands there in a record, or its default. -/
structure Given (v : Json) (config : Config) : Prop where
  isa : Takes .cdc8512 isaOfJson? (v.inField "isa" 0) config.isa
  clockPeriod : Takes 500 (·.nat? numberBound) (v.inField "clock_period_ms" 1) config.clockPeriod
  maxSteps : Takes 10000 (·.nat? numberBound) (v.inField "max_steps" 2) config.maxSteps
  trace : Takes true (·.bool?) (v.inField "trace" 3) config.trace
  traceLimit : Takes (some 10000) limitOfJson? (v.inField "trace_limit" 4) config.traceLimit

/-- What is read of a field that stands in a record. -/
theorem takes_of_fields? {α : Type} {default value : α} {read : Json → Option α} {names : List String}
    {values : List (Option Json)} {field : Option Json} {name : String} {place : Nat}
    (hfields : v.fields? names = some values) (hname : names[place]? = some name)
    (hfield : values[place]? = some field) (h : fieldOr default read field = some value) :
    Takes default read (v.inField name place) value := by
  rw [Json.inField_of_fields? hfields hname hfield]
  cases field with
  | none =>
    obtain rfl := Option.some.inj h
    exact .missing
  | some v => exact .given h

/-- A configuration that has been read has the values of its file, and the defaults where it has none. -/
theorem given_of_ofJson? (h : ofJson? v = some config) : config.Given v := by
  unfold ofJson? at h
  obtain ⟨fields, hfields, h⟩ := Option.bind_eq_some_iff.mp h
  split at h
  · simp only [Option.bind_eq_bind, Option.bind_eq_some_iff, Option.pure_def, Option.some.injEq] at h
    obtain ⟨isa, hisa, clockPeriod, hclockPeriod, maxSteps, hmaxSteps, trace, htrace, traceLimit,
      htraceLimit, rfl⟩ := h
    exact
      { isa := takes_of_fields? hfields rfl rfl hisa
        clockPeriod := takes_of_fields? hfields rfl rfl hclockPeriod
        maxSteps := takes_of_fields? hfields rfl rfl hmaxSteps
        trace := takes_of_fields? hfields rfl rfl htrace
        traceLimit := takes_of_fields? hfields rfl rfl htraceLimit }
  · cases h

end Config

end Octet

import Mathlib.Data.List.Infix
import Mathlib.Data.List.TakeWhile
import SchemaDoc.CommandLine.Run

/-!
# Environments that agree but for one name

Two environments that tell the same of every name but one still do so after the lines of a file, if
the lines assign that name only in places of their own and put it into no other value
(`AgreesBut.addLines?`).
-/
namespace SchemaDoc

namespace Environment

variable {name other : String} {env env' : Environment}

/-- Whether the entries of a name answer for another one, which they do if it begins with the name
and an equals sign, or is the name. -/
def Concerns (name other : String) : Prop :=
  name.toList ++ ['='] <+: other.toList ++ ['=']

/-- Environments tell the same of all that does not concern a name. -/
def AgreesBut (name : String) (env env' : Environment) : Prop :=
  ∀ other, ¬ Concerns name other → env.value? other = env'.value? other

theorem Concerns.occurs (h : Concerns name other) : name.toList <:+: other.toList := by
  rcases List.prefix_concat_iff.mp h with h | h
  · rw [List.append_cancel_right h]
  · exact ((List.prefix_append _ _).trans h).isInfix

theorem not_concerns_of_ne (hother : '=' ∉ other.toList) (hne : other ≠ name) :
    ¬ Concerns name other := by
  intro h
  rcases List.prefix_concat_iff.mp h with h | h
  · exact hne (String.toList_inj.mp (List.append_cancel_right h).symm)
  · exact hother (h.subset (by simp))

theorem AgreesBut.refl (name : String) (env : Environment) : AgreesBut name env env :=
  fun _ _ => rfl

theorem AgreesBut.symm (h : AgreesBut name env env') : AgreesBut name env' env :=
  fun other hother => (h other hother).symm

theorem AgreesBut.trans {env'' : Environment} (h : AgreesBut name env env')
    (h' : AgreesBut name env' env'') : AgreesBut name env env'' :=
  fun other hother => (h other hother).trans (h' other hother)

theorem value?_concat (env : Environment) (e other : String) :
    (env ++ [e]).value? other = (env.value? other).or (value? [e] other) := by
  unfold value?
  split
  · rfl
  · rw [List.findSome?_append]

theorem value?_entry_of_not_concerns (hname : '=' ∉ name.toList) (hother : ¬ Concerns name other)
    (value : String) : value? [entry name value] other = none := by
  have hentry : entryValue? other (entry name value) = none := by
    rw [entryValue?, Option.map_eq_none_iff, Option.eq_none_iff_forall_ne_some]
    intro rest h
    have hwhole : other.toList ++ ['='] <+: (entry name value).toList :=
      ⟨rest, (Text.eq_append_of_strip? h).symm⟩
    have hentry : name.toList ++ ['='] <+: (entry name value).toList :=
      ⟨value.toList, by simp [entry]⟩
    rcases List.prefix_or_prefix_of_prefix hentry hwhole with h | h
    · exact hother h
    · rcases List.prefix_concat_iff.mp h with h | h
      · exact hother (by rw [Concerns, h])
      · exact hname (h.subset (by simp))
  unfold value?
  split
  · rfl
  · rw [List.findSome?_cons, hentry, List.findSome?_nil]

theorem add?_eq_some_iff {value : String} {more : Environment} : env.add? name value = some more ↔
    (env.value? name).isSome ∧ more = env ∨
      env.value? name = none ∧ '\x00' ∉ value.toList ∧ more = env ++ [entry name value] := by
  rw [add?]
  cases env.value? name with
  | some _ => simp [eq_comm]
  | none => by_cases hnull : '\x00' ∈ value.toList <;> simp [hnull, eq_comm]

theorem agreesBut_of_add? (hname : '=' ∉ name.toList) {value : String} {more : Environment}
    (h : env.add? name value = some more) : AgreesBut name more env := by
  rcases add?_eq_some_iff.mp h with ⟨-, rfl⟩ | ⟨-, -, rfl⟩
  · exact .refl name more
  · intro other hother
    rw [value?_concat, value?_entry_of_not_concerns hname hother, Option.or_none]

theorem AgreesBut.add? (h : AgreesBut name env env') (hother : ¬ Concerns name other)
    {value : String} {more more' : Environment} (hmore : env.add? other value = some more)
    (hmore' : env'.add? other value = some more') : AgreesBut name more more' := by
  have hsame := h other hother
  rcases add?_eq_some_iff.mp hmore with ⟨hset, rfl⟩ | ⟨hunset, -, rfl⟩
  · rcases add?_eq_some_iff.mp hmore' with ⟨-, rfl⟩ | ⟨hunset', -⟩
    · exact h
    · rw [hsame, hunset'] at hset
      cases hset
  · rcases add?_eq_some_iff.mp hmore' with ⟨hset', -⟩ | ⟨-, -, rfl⟩
    · rw [← hsame, hunset] at hset'
      cases hset'
    · intro another hanother
      rw [value?_concat, value?_concat, h another hanother]

end Environment

section

variable {name : String} {env env' : Environment}

theorem valueOf_congr (h : env.AgreesBut name env') {read : List Char}
    (hread : ¬ name.toList <:+: read) : valueOf env read = valueOf env' read := by
  rw [valueOf, valueOf, h (String.ofList read)]
  intro hconcerns
  have hoccurs := hconcerns.occurs
  rw [String.toList_ofList] at hoccurs
  exact hread hoccurs

/-- What a reader of a value has read of a name. -/
def ValueState.pending : ValueState → List Char
  | .name _ read => read.reverse
  | .braced _ read => read.reverse
  | _ => []

theorem readValue?_congr (h : env.AgreesBut name env') {state : ValueState} {s : List Char}
    (hs : ¬ name.toList <:+: state.pending ++ s) :
    readValue? env state s = readValue? env' state s := by
  induction s generalizing state with
  | nil =>
    cases state with
    | plain weak => cases weak <;> rfl
    | name weak read =>
      have hvalue : valueOf env read.reverse = valueOf env' read.reverse :=
        valueOf_congr h (by rwa [List.append_nil] at hs)
      simp only [readValue?, hvalue]
    | escaped | strong | braced | ended => rfl
  | cons c rest ih =>
    have hvalue : valueOf env state.pending = valueOf env' state.pending :=
      valueOf_congr h fun hoccurs => hs (hoccurs.trans (List.prefix_append _ _).isInfix)
    have hlonger (next : ValueState) (hnext : next.pending = state.pending ++ [c]) :
        readValue? env next rest = readValue? env' next rest :=
      ih (by rwa [hnext, List.append_assoc, List.singleton_append])
    -- A state that does not go on with a name starts afresh.
    have hfresh (next : ValueState) (hnext : next.pending = []) :
        readValue? env next rest = readValue? env' next rest := by
      refine ih fun hoccurs => hs ?_
      rw [hnext, List.nil_append] at hoccurs
      exact hoccurs.trans ((List.suffix_cons c rest).trans (List.suffix_append _ _)).isInfix
    have hplain (weak : Bool) := hfresh (.plain weak) rfl
    have hescaped (weak : Bool) := hfresh (.escaped weak) rfl
    have hstrong := hfresh .strong rfl
    have hended := hfresh .ended rfl
    have hname (weak : Bool) := hfresh (.name weak []) rfl
    have hbraced (weak : Bool) := hfresh (.braced weak []) rfl
    cases state with
    | plain weak => simp only [readValue?, hplain, hescaped, hstrong, hended, hname]
    | strong => simp only [readValue?, hplain, hstrong]
    | escaped weak => simp only [readValue?, hplain]
    | name weak read =>
      have hmore := hlonger (.name weak (c :: read)) List.reverse_cons
      simp only [ValueState.pending] at hvalue
      simp only [readValue?, hplain, hname, hbraced, hmore, hvalue]
    | braced weak read =>
      have hmore := hlonger (.braced weak (c :: read)) List.reverse_cons
      simp only [ValueState.pending] at hvalue
      simp only [readValue?, hplain, hmore, hvalue]
    | ended => simp only [readValue?, hended]

end

/-- A line in whose value, if it has one, a name does not occur. -/
def OmitsInValue (name : String) (line : List Char) : Prop :=
  ∀ key rest, readAssignment? (Text.trimChars line) = some (key, rest) → ¬ name.toList <:+: rest

/-- A line that gives a name a value, whatever the environment is. -/
def AlwaysAssigns (name : String) (line : List Char) : Prop :=
  ∀ env, ∃ value, readEntry? env line = some (some (name, value))

/-- Lines of two files that differ only in those that assign a name, and in which no other value is
made from its value. -/
inductive DifferIn (name : String) : List (Option (List Char)) → List (Option (List Char)) → Prop
  | nil : DifferIn name [] []
  | unclosed (lines lines' : List (Option (List Char))) :
      DifferIn name (none :: lines) (none :: lines')
  | both {line : List Char} {lines lines' : List (Option (List Char))}
      (hline : OmitsInValue name line) (h : DifferIn name lines lines') :
      DifferIn name (some line :: lines) (some line :: lines')
  | first {line : List Char} {lines lines' : List (Option (List Char))}
      (hline : AlwaysAssigns name line) (h : DifferIn name lines lines') :
      DifferIn name (some line :: lines) lines'
  | second {line : List Char} {lines lines' : List (Option (List Char))}
      (hline : AlwaysAssigns name line) (h : DifferIn name lines lines') :
      DifferIn name lines (some line :: lines')

theorem not_mem_of_readKey? {s key rest : List Char} (h : readKey? s = some (key, rest)) :
    '=' ∉ key := by
  rw [readKey?] at h
  split_ifs at h
  cases h
  exact fun hmem => absurd (List.mem_takeWhile_imp hmem) (by decide)

theorem not_mem_of_readAssignment? {s rest : List Char} {key : String}
    (h : readAssignment? s = some (key, rest)) : '=' ∉ key.toList := by
  rw [readAssignment?] at h
  obtain ⟨⟨first, rest₁⟩, hfirst, h⟩ := Option.bind_eq_some_iff.mp h
  dsimp only at h
  split at h
  next =>
    cases h
    rw [String.toList_ofList]
    exact not_mem_of_readKey? hfirst
  next =>
    split_ifs at h
    obtain ⟨⟨second, rest₂⟩, hsecond, h⟩ := Option.bind_eq_some_iff.mp h
    dsimp only at h
    split at h
    next =>
      cases h
      rw [String.toList_ofList]
      exact not_mem_of_readKey? hsecond
    next => cases h

theorem exists_assignment_of_entry {env : Environment} {line : List Char} {key value : String}
    (h : readEntry? env line = some (some (key, value))) :
    ∃ rest, readAssignment? (Text.trimChars line) = some (key, rest) := by
  unfold readEntry? at h
  dsimp only at h
  split at h
  next => cases h
  next =>
    obtain ⟨⟨key', rest⟩, hassign, h⟩ := Option.bind_eq_some_iff.mp h
    dsimp only at h
    split_ifs at h
    · cases h
      exact ⟨rest, hassign⟩
    · obtain ⟨_, _, h⟩ := Option.bind_eq_some_iff.mp h
      cases h
      exact ⟨rest, hassign⟩

theorem readEntry?_congr {name : String} {env env' : Environment} (h : env.AgreesBut name env')
    {line : List Char} (hline : OmitsInValue name line) :
    readEntry? env line = readEntry? env' line := by
  unfold readEntry?
  dsimp only
  cases hassign : readAssignment? (Text.trimChars line) with
  | none => rfl
  | some assignment =>
    obtain ⟨key, rest⟩ := assignment
    have hvalue : readValue? env (.plain false) rest = readValue? env' (.plain false) rest :=
      readValue?_congr h (hline key rest hassign)
    simp only [Option.bind_eq_bind, Option.bind_some, hvalue]

namespace Environment

variable {name : String} {env env' seen seen' : Environment}

theorem addLines?_cons_eq_some_iff {line : List Char} {lines : List (Option (List Char))} :
    env.addLines? (some line :: lines) = some seen ↔
      readEntry? env line = none ∧ seen = env ∨
      readEntry? env line = some none ∧ env.addLines? lines = some seen ∨
      ∃ key value more, readEntry? env line = some (some (key, value)) ∧
        env.add? key value = some more ∧
        more.addLines? lines = some seen := by
  rw [addLines?]
  cases readEntry? env line with
  | none => simp [eq_comm]
  | some entry? =>
    cases entry? with
    | none => simp
    | some entry =>
      obtain ⟨key, value⟩ := entry
      cases h : env.add? key value <;> simp [h]

theorem exists_agreesBut_of_assigns (hname : '=' ∉ name.toList) {line : List Char}
    (hline : AlwaysAssigns name line) {lines : List (Option (List Char))}
    (h : env.addLines? (some line :: lines) = some seen) :
    ∃ more, AgreesBut name more env ∧ more.addLines? lines = some seen := by
  obtain ⟨value, hvalue⟩ := hline env
  rcases addLines?_cons_eq_some_iff.mp h with
    ⟨hnone, -⟩ | ⟨hnone, -⟩ | ⟨key, value', more, hentry, hmore, h⟩
  · rw [hvalue] at hnone
    cases hnone
  · rw [hvalue] at hnone
    cases hnone
  · cases hvalue.symm.trans hentry
    exact ⟨more, agreesBut_of_add? hname hmore, h⟩

theorem AgreesBut.addLines? (hname : '=' ∉ name.toList) (h : AgreesBut name env env')
    {lines lines' : List (Option (List Char))} (hlines : DifferIn name lines lines')
    (hseen : env.addLines? lines = some seen) (hseen' : env'.addLines? lines' = some seen') :
    AgreesBut name seen seen' := by
  induction hlines generalizing env env' with
  | nil | unclosed =>
    cases hseen
    cases hseen'
    exact h
  | first hline _ ih =>
    obtain ⟨more, hmore, hseen⟩ := exists_agreesBut_of_assigns hname hline hseen
    exact ih (hmore.trans h) hseen hseen'
  | second hline _ ih =>
    obtain ⟨more, hmore, hseen'⟩ := exists_agreesBut_of_assigns hname hline hseen'
    exact ih (h.trans hmore.symm) hseen hseen'
  | both hline _ ih =>
    have hsame := readEntry?_congr h hline
    rcases addLines?_cons_eq_some_iff.mp hseen with ⟨hentry, rfl⟩ | ⟨hentry, hseen⟩ |
      ⟨key, value, more, hentry, hmore, hseen⟩ <;>
    rcases addLines?_cons_eq_some_iff.mp hseen' with ⟨hentry', rfl⟩ | ⟨hentry', hseen'⟩ |
      ⟨key', value', more', hentry', hmore', hseen'⟩ <;>
    cases hentry.symm.trans (hsame.trans hentry')
    · exact h
    · exact ih h hseen hseen'
    · by_cases hkey : key = name
      · subst hkey
        exact ih (((agreesBut_of_add? hname hmore).trans h).trans
          (agreesBut_of_add? hname hmore').symm) hseen hseen'
      · obtain ⟨rest, hassign⟩ := exists_assignment_of_entry hentry
        have hother := not_concerns_of_ne (not_mem_of_readAssignment? hassign) hkey
        exact ih (h.add? hother hmore hmore') hseen hseen'

end Environment

end SchemaDoc

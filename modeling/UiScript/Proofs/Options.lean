/-
The options of a command line. An argument is of one kind or of none, which
its text alone tells, and it can be read or not on its own. If all of them
can be read, what they come to is told kind by kind: of the options with a
value the last one counts, a flag counts wherever it stands, and the inputs
are what is left, in order. So arguments of different kinds may change places.

# Main statements

* `faulty_iff`: which arguments cannot be read, and what is said of them.
* `settles_of_readArgument`: what one argument does to the options.
* `parseFrom_ok`, `parseFrom_error`: what all of them do, and the first one
  that cannot be read.
* `parse_of_rearranged`: the order among arguments of different kinds.
* `parse_settles`: all of it, for a whole command line.
-/
import UiScript.Proofs.OptionValues

namespace UiScript.CommandLine

open Config (NamesLimit)

-- ================================================================= starts

/-- Whether an argument starts with the name of an option. -/
def begins (start argument : String) : Bool := start.toList.isPrefixOf argument.toList

/-- What comes after the name of an option is the rest of the argument. -/
theorem after?_eq_some_iff {start s rest : String} :
    after? start s = some rest ↔ s = start ++ rest := by
  unfold after?
  rw [← String.toList_inj, String.toList_append]
  constructor
  · intro h
    split at h
    · next hstart =>
      obtain ⟨more, hmore⟩ := List.isPrefixOf_iff_prefix.1 hstart
      rw [← hmore, List.drop_left, Option.some_inj] at h
      rw [← hmore, ← h, String.toList_ofList]
    · cases h
  · intro h
    rw [h, if_pos (List.isPrefixOf_iff_prefix.2 (List.prefix_append _ _)), List.drop_left,
      String.ofList_toList]

theorem after?_append (start rest : String) : after? start (start ++ rest) = some rest :=
  after?_eq_some_iff.2 rfl

/-- A text that has a start is made of it and of what follows it. -/
theorem exists_of_begins {start s : String} (h : begins start s = true) :
    ∃ rest, s = start ++ rest := by
  obtain ⟨rest, hrest⟩ := List.isPrefixOf_iff_prefix.1 h
  refine ⟨String.ofList rest, String.toList_inj.1 ?_⟩
  rw [String.toList_append, String.toList_ofList, hrest]

theorem begins_append (start rest : String) : begins start (start ++ rest) = true := by
  rw [begins, String.toList_append]
  exact List.isPrefixOf_iff_prefix.2 (List.prefix_append _ _)

/-- A text that does not have a start is not taken apart by it. -/
theorem after?_of_not_begins {start s : String} (h : begins start s = false) :
    after? start s = none := if_neg (Bool.eq_false_iff.1 h)

/-- A text starts in one way only, if neither start is a start of the other. -/
theorem not_begins_append {start other : String} (h : ¬ start.toList <+: other.toList)
    (h' : ¬ other.toList <+: start.toList) (rest : String) :
    begins other (start ++ rest) = false := by
  refine Bool.eq_false_iff.2 fun hother => ?_
  have hstart := List.isPrefixOf_iff_prefix.1 (begins_append start rest)
  rcases List.prefix_or_prefix_of_prefix hstart (List.isPrefixOf_iff_prefix.1 hother)
    with hless | hless
  · exact h hless
  · exact h' hless

/-- No two names of options start one another, so an argument with the one
name has no value for the other. -/
theorem after?_append_of_not_prefix {start other : String} (h : ¬ start.toList <+: other.toList)
    (h' : ¬ other.toList <+: start.toList) (rest : String) : after? other (start ++ rest) = none :=
  after?_of_not_begins (not_begins_append h h' rest)

/-- An argument that starts with the name of an option is none of the flags. -/
theorem ne_append {start other : String} (h : ¬ start.toList <+: other.toList) (rest : String) :
    other ≠ start ++ rest := by
  rintro rfl
  exact h (by rw [String.toList_append]; exact List.prefix_append _ _)

-- ================================================================== kinds

/-- The kinds of arguments. -/
inductive Kind where
  | maxDepth
  | maxChain
  | color
  | strict
  | denylistOnly
  | json
  | input
deriving DecidableEq

/-- Whether an argument is of a kind, whatever value is given with it. -/
def Kind.covers : Kind → String → Bool
  | .maxDepth, argument => begins "--max-depth=" argument
  | .maxChain, argument => begins "--max-chain=" argument
  | .color, argument => begins "--color=" argument
  | .strict, argument => argument == "--strict"
  | .denylistOnly, argument => argument == "--denylist-only"
  | .json, argument => argument == "--json"
  | .input, argument => argument == "-" || !(['-'].isPrefixOf argument.toList)

/-- An argument that cannot be read on its own, and what is said of it: a
known option with a bad value, or an argument that starts with a minus sign
and is of no kind. -/
inductive Faulty : String → String → Prop where
  | limit {option value : String} (hoption : option ∈ ["--max-depth", "--max-chain"])
    (h : ∀ limit, ¬ NamesLimit value limit) :
    Faulty (option ++ "=" ++ value) s!"{option} must be a positive integer, got `{value}`"
  | color {value : String} (h : value ∉ ["auto", "always", "never"]) :
    Faulty ("--color=" ++ value) s!"invalid --color value '{value}' (auto, always, never)"
  | unknown {argument : String} (h : ∀ kind : Kind, kind.covers argument = false) :
    Faulty argument s!"unknown option '{argument}'"

/-- The ways an argument may be written. -/
inductive Form : String → Prop where
  | maxDepth (value : String) : Form ("--max-depth=" ++ value)
  | maxChain (value : String) : Form ("--max-chain=" ++ value)
  | color (value : String) : Form ("--color=" ++ value)
  | strict : Form "--strict"
  | denylistOnly : Form "--denylist-only"
  | json : Form "--json"
  | input {argument : String} (h : Kind.input.covers argument = true) : Form argument
  | unknown {argument : String} (h : ∀ kind : Kind, kind.covers argument = false) : Form argument

/-- Every argument is of one form: one of the three options with a value, one
of the three flags, an input, or none of these. -/
theorem form (argument : String) : Form argument := by
  by_cases hkind : ∃ kind : Kind, kind.covers argument = true
  · obtain ⟨kind, hcovers⟩ := hkind
    cases kind with
    | maxDepth =>
      obtain ⟨value, rfl⟩ := exists_of_begins hcovers
      exact .maxDepth value
    | maxChain =>
      obtain ⟨value, rfl⟩ := exists_of_begins hcovers
      exact .maxChain value
    | color =>
      obtain ⟨value, rfl⟩ := exists_of_begins hcovers
      exact .color value
    | strict =>
      obtain rfl := eq_of_beq hcovers
      exact .strict
    | denylistOnly =>
      obtain rfl := eq_of_beq hcovers
      exact .denylistOnly
    | json =>
      obtain rfl := eq_of_beq hcovers
      exact .json
    | input => exact .input hcovers
  · exact .unknown fun kind => Bool.eq_false_iff.2 fun hcovers => hkind ⟨kind, hcovers⟩

-- ================================================================ readings

theorem readArgument_maxDepth (value : String) :
    readArgument ("--max-depth=" ++ value) = limitSetting "--max-depth" .maxDepth value := by
  rw [readArgument, after?_append]

theorem readArgument_maxChain (value : String) :
    readArgument ("--max-chain=" ++ value) = limitSetting "--max-chain" .maxChain value := by
  rw [readArgument, after?_append_of_not_prefix (by decide) (by decide), after?_append]

theorem readArgument_color (value : String) :
    readArgument ("--color=" ++ value) = colorSetting value := by
  rw [readArgument, after?_append_of_not_prefix (by decide) (by decide),
    after?_append_of_not_prefix (by decide) (by decide), after?_append]

/-- What starts with no name of an option that takes a value is a flag or an
input. -/
theorem readArgument_plain {argument : String} (hdepth : after? "--max-depth=" argument = none)
    (hchain : after? "--max-chain=" argument = none) (hcolor : after? "--color=" argument = none) :
    readArgument argument = plainArgument argument := by
  rw [readArgument, hdepth, hchain, hcolor]

/-- An input does not start with two minus signs. -/
theorem not_prefix_of_input {argument : String} (h : Kind.input.covers argument = true) :
    ¬ ['-', '-'] <+: argument.toList := by
  intro hbegins
  rcases Bool.or_eq_true_iff.1 h with hminus | hnone
  · rw [eq_of_beq hminus] at hbegins
    revert hbegins
    decide
  · have hone : ['-'] <+: argument.toList := (List.prefix_append ['-'] ['-']).trans hbegins
    rw [List.isPrefixOf_iff_prefix.2 hone] at hnone
    cases hnone

/-- What starts with two minus signs is no input, whatever comes behind. -/
theorem not_input_append {start : String} (h : ['-', '-'] <+: start.toList) (rest : String) :
    Kind.input.covers (start ++ rest) = false := by
  refine Bool.eq_false_iff.2 fun hinput => not_prefix_of_input hinput ?_
  rw [String.toList_append]
  exact h.trans (List.prefix_append _ _)

/-- An input has none of the starts of options. -/
theorem not_begins_of_input {start argument : String} (hstart : ['-', '-'] <+: start.toList)
    (h : Kind.input.covers argument = true) :
    begins start argument = false :=
  Bool.eq_false_iff.2 fun hbegins =>
    not_prefix_of_input h (hstart.trans (List.isPrefixOf_iff_prefix.1 hbegins))

/-- An input is none of the flags. -/
theorem ne_of_input {flag argument : String} (hflag : ['-', '-'] <+: flag.toList)
    (h : Kind.input.covers argument = true) : argument ≠ flag := by
  rintro rfl
  exact not_prefix_of_input h hflag

/-- An input is read as it is, also a single minus sign. -/
theorem readArgument_input {argument : String} (h : Kind.input.covers argument = true) :
    readArgument argument = .ok (.input argument) := by
  have hafter : ∀ start : String, ['-', '-'] <+: start.toList → after? start argument = none :=
    fun start hstart => after?_of_not_begins (not_begins_of_input hstart h)
  rw [readArgument_plain (hafter _ (by decide)) (hafter _ (by decide)) (hafter _ (by decide)),
    plainArgument, if_neg (ne_of_input (by decide) h),
    if_neg (ne_of_input (by decide) h), if_neg (ne_of_input (by decide) h), if_neg]
  intro hdash
  obtain ⟨hne, hbegins⟩ := hdash
  rcases Bool.or_eq_true_iff.1 h with hminus | hnone
  · exact hne (eq_of_beq hminus)
  · rw [hbegins] at hnone
    cases hnone

/-- An argument of no kind is not read, and is named in the message. -/
theorem readArgument_unknown {argument : String}
    (h : ∀ kind : Kind, kind.covers argument = false) :
    readArgument argument = .error (.unknown argument) := by
  obtain ⟨hminus, hdash⟩ := Bool.or_eq_false_iff.1 (h .input)
  rw [readArgument_plain (after?_of_not_begins (h .maxDepth))
      (after?_of_not_begins (h .maxChain)) (after?_of_not_begins (h .color)),
    plainArgument, if_neg (ne_of_beq_false (h .strict)), if_neg (ne_of_beq_false (h .denylistOnly)),
    if_neg (ne_of_beq_false (h .json)), if_pos]
  exact ⟨ne_of_beq_false hminus, by simpa using hdash⟩

/-- The message names the option and shows the value as it was given. -/
theorem message_badLimit (option value : String) :
    (OptionError.badConfig (.badLimit option value)).message
      = s!"{option} must be a positive integer, got `{value}`" := rfl

/-- A limit that cannot be read is an error with the name of its option. -/
theorem limitSetting_of_none {option value : String} (setting : Nat → Setting)
    (h : Config.limit? value = none) :
    limitSetting option setting value = .error (.badConfig (.badLimit option value)) := by
  unfold limitSetting Config.readLimit
  simp only [h]

theorem limitSetting_of_some {option value : String} {limit : Nat} (setting : Nat → Setting)
    (h : Config.limit? value = some limit) :
    limitSetting option setting value = .ok (.setting (setting limit)) := by
  unfold limitSetting Config.readLimit
  simp only [h]

/-- A limit is only set to what its value is read as. -/
theorem exists_of_limitSetting {option value : String} {setting : Nat → Setting} {read : Argument}
    (h : limitSetting option setting value = .ok read) :
    ∃ limit, Config.limit? value = some limit ∧ read = .setting (setting limit) := by
  cases hlimit : Config.limit? value with
  | none =>
    rw [limitSetting_of_none setting hlimit] at h
    cases h
  | some limit =>
    rw [limitSetting_of_some setting hlimit] at h
    exact ⟨limit, rfl, (Except.ok.inj h).symm⟩

/-- A mode is only set to what its value is read as. -/
theorem exists_of_colorSetting {value : String} {read : Argument}
    (h : colorSetting value = .ok read) :
    ∃ mode, colorMode? value = some mode ∧ read = .setting (.color mode) := by
  unfold colorSetting at h
  split at h
  · next mode hmode => exact ⟨mode, hmode, (Except.ok.inj h).symm⟩
  · cases h

/-- What is said of an option that should be a limit. -/
theorem faulty_of_limitSetting {option value : String} {setting : Nat → Setting}
    {error : OptionError} (hoption : option ∈ ["--max-depth", "--max-chain"])
    (h : limitSetting option setting value = .error error) :
    Faulty (option ++ "=" ++ value) error.message := by
  cases hlimit : Config.limit? value with
  | none =>
    rw [limitSetting_of_none setting hlimit] at h
    obtain rfl := Except.error.inj h
    rw [message_badLimit]
    exact .limit hoption (Config.limit?_eq_none_iff.1 hlimit)
  | some limit =>
    rw [limitSetting_of_some setting hlimit] at h
    cases h

/-- The argument cannot be read exactly if it is faulty, and this is what is
said. Whether it can be read does not depend on the other arguments, and
neither does the message. -/
theorem faulty_iff {argument message : String} :
    Faulty argument message ↔
      ∃ error, readArgument argument = .error error ∧ message = error.message := by
  have hdepth : "--max-depth" ++ "=" = "--max-depth=" := rfl
  have hchain : "--max-chain" ++ "=" = "--max-chain=" := rfl
  constructor
  -- what is faulty is not read
  · intro h
    cases h with
    | limit hoption h =>
      refine ⟨.badConfig (.badLimit _ _), ?_, (message_badLimit _ _).symm⟩
      have hnone := Config.limit?_eq_none_iff.2 h
      rcases hoption with _ | ⟨_, _ | ⟨_, ⟨⟩⟩⟩
      · rw [hdepth, readArgument_maxDepth, limitSetting_of_none _ hnone]
      · rw [hchain, readArgument_maxChain, limitSetting_of_none _ hnone]
    | color h =>
      refine ⟨.badColor _, ?_, rfl⟩
      rw [readArgument_color, colorSetting, colorMode?_eq_none_iff.2 h]
    | unknown h => exact ⟨.unknown _, readArgument_unknown h, rfl⟩
  -- what is not read is faulty, by the form of the argument; only two of the forms can fail
  · intro h
    obtain ⟨error, herror, rfl⟩ := h
    cases form argument with
    | maxDepth value =>
      rw [readArgument_maxDepth] at herror
      rw [← hdepth]
      exact faulty_of_limitSetting List.mem_cons_self herror
    | maxChain value =>
      rw [readArgument_maxChain] at herror
      rw [← hchain]
      exact faulty_of_limitSetting (List.mem_cons_of_mem _ List.mem_cons_self) herror
    | color value =>
      rw [readArgument_color, colorSetting] at herror
      cases hmode : colorMode? value with
      | none =>
        rw [hmode] at herror
        cases herror
        exact .color (colorMode?_eq_none_iff.1 hmode)
      | some mode =>
        rw [hmode] at herror
        cases herror
    | strict => cases herror
    | denylistOnly => cases herror
    | json => cases herror
    | input h =>
      rw [readArgument_input h] at herror
      cases herror
    | unknown h =>
      rw [readArgument_unknown h] at herror
      cases herror
      exact .unknown h

-- ================================================================= options

/-- What the options with a value come to: the last argument that starts with
the name of the option tells, and if there is none, what held before. -/
def LastGiven {α : Type} (start : String) (Names : String → α → Prop) (arguments : List String)
    (before result : α) : Prop :=
  match (arguments.filter (begins start)).getLast? with
  | some argument => ∃ value, argument = start ++ value ∧ Names value result
  | none => result = before

/-- What arguments make of the options that hold before: of the values that
are given the last one counts, and a flag counts wherever it stands. -/
structure Settles (start : Options) (arguments : List String) (finish : Options) : Prop where
  maxDepth : LastGiven "--max-depth=" NamesLimit arguments start.config.maxDepth
    finish.config.maxDepth
  maxChain : LastGiven "--max-chain=" NamesLimit arguments start.config.maxChain
    finish.config.maxChain
  color : LastGiven "--color=" NamesMode arguments start.color finish.color
  strictLiterals : finish.config.strictLiterals
    = (start.config.strictLiterals || arguments.contains "--strict")
  denylistOnly : finish.config.denylistOnly
    = (start.config.denylistOnly || arguments.contains "--denylist-only")
  json : finish.json = (start.json || arguments.contains "--json")

section

variable {α : Type} {start : String} {Names : String → α → Prop} {before mid result result' : α}
  {arguments arguments' : List String}

/-- Without arguments, what held before still holds. -/
theorem LastGiven.nil : LastGiven start Names [] before before := rfl

/-- An argument with another start tells nothing. -/
theorem LastGiven.of_other {argument : String} (h : begins start argument = false) :
    LastGiven start Names [argument] before before := by
  unfold LastGiven
  rw [List.filter_cons_of_neg (Bool.eq_false_iff.1 h)]
  rfl

/-- An argument with the start and a value is the last one of its kind if it
stands alone. -/
theorem LastGiven.of_value {value : String} (h : Names value result) :
    LastGiven start Names [start ++ value] before result := by
  unfold LastGiven
  rw [List.filter_cons_of_pos (begins_append start value)]
  exact ⟨value, rfl, h⟩

/-- What later arguments tell stands before what earlier ones do. -/
theorem LastGiven.append (h : LastGiven start Names arguments before mid)
    (k : LastGiven start Names arguments' mid result) :
    LastGiven start Names (arguments ++ arguments') before result := by
  unfold LastGiven at k ⊢
  rw [List.filter_append, List.getLast?_append]
  cases hlast : (arguments'.filter (begins start)).getLast? with
  | some argument =>
    rw [hlast] at k
    exact k
  | none =>
    rw [hlast] at k
    obtain rfl : result = mid := k
    exact h

/-- What an option comes to depends on the arguments with that option only,
and on their order. -/
theorem LastGiven.of_filter_eq (h : LastGiven start Names arguments before result)
    (hfilter : arguments'.filter (begins start) = arguments.filter (begins start)) :
    LastGiven start Names arguments' before result := by
  unfold LastGiven at h ⊢
  rw [hfilter]
  exact h

/-- An option comes to one thing only, if a value names one thing only. -/
theorem LastGiven.unique (h : LastGiven start Names arguments before result)
    (k : LastGiven start Names arguments before result')
    (hunique : ∀ value, Names value result → Names value result' → result = result') :
    result = result' := by
  unfold LastGiven at h k
  split at h
  · next argument hlast =>
    rw [hlast] at k
    obtain ⟨value, hargument, hvalue⟩ := h
    obtain ⟨value', hargument', hvalue'⟩ := k
    -- the same argument, and the same start: the values are the same
    have hsame := (after?_eq_some_iff.2 hargument).symm.trans (after?_eq_some_iff.2 hargument')
    obtain rfl := Option.some.inj hsame
    exact hunique value hvalue hvalue'
  · next hlast =>
    rw [hlast] at k
    exact h.trans k.symm

/-- A limit is positive, if the one that holds without an option is. -/
theorem LastGiven.one_le {before result : Nat} (hbefore : 1 ≤ before)
    (h : LastGiven start NamesLimit arguments before result) : 1 ≤ result := by
  unfold LastGiven at h
  split at h
  · obtain ⟨value, -, hvalue⟩ := h
    exact hvalue.one_le
  · rw [h]
    exact hbefore

end

theorem Settles.nil (start : Options) : Settles start [] start :=
  ⟨.nil, .nil, .nil, (Bool.or_false _).symm, (Bool.or_false _).symm, (Bool.or_false _).symm⟩

/-- Some arguments, and then others. -/
theorem Settles.append {start mid finish : Options} {before after : List String}
    (h : Settles start before mid) (k : Settles mid after finish) :
    Settles start (before ++ after) finish := by
  refine ⟨h.maxDepth.append k.maxDepth, h.maxChain.append k.maxChain, h.color.append k.color,
    ?_, ?_, ?_⟩
  · rw [k.strictLiterals, h.strictLiterals, List.contains_append, Bool.or_assoc]
  · rw [k.denylistOnly, h.denylistOnly, List.contains_append, Bool.or_assoc]
  · rw [k.json, h.json, List.contains_append, Bool.or_assoc]

/-- An argument with a value is none of the flags. -/
theorem or_contains_append {start flag : String} (h : ¬ start.toList <+: flag.toList)
    (value : String) (held : Bool) : held = (held || [start ++ value].contains flag) := by
  rw [List.contains_cons, beq_false_of_ne (ne_append h value)]
  exact (Bool.or_false _).symm

/-- One option with a depth sets it, and changes nothing else. -/
theorem settles_maxDepth {value : String} {limit : Nat} (h : NamesLimit value limit)
    (start : Options) :
    Settles start ["--max-depth=" ++ value] (start.apply (.maxDepth limit)) :=
  ⟨.of_value h, .of_other (not_begins_append (by decide) (by decide) value),
    .of_other (not_begins_append (by decide) (by decide) value),
    or_contains_append (by decide) value _, or_contains_append (by decide) value _,
    or_contains_append (by decide) value _⟩

theorem settles_maxChain {value : String} {limit : Nat} (h : NamesLimit value limit)
    (start : Options) :
    Settles start ["--max-chain=" ++ value] (start.apply (.maxChain limit)) :=
  ⟨.of_other (not_begins_append (by decide) (by decide) value), .of_value h,
    .of_other (not_begins_append (by decide) (by decide) value),
    or_contains_append (by decide) value _, or_contains_append (by decide) value _,
    or_contains_append (by decide) value _⟩

/-- One option with a mode sets it, and changes nothing else. -/
theorem settles_color {value : String} {mode : ColorMode} (h : NamesMode value mode)
    (start : Options) :
    Settles start ["--color=" ++ value] (start.apply (.color mode)) :=
  ⟨.of_other (not_begins_append (by decide) (by decide) value),
    .of_other (not_begins_append (by decide) (by decide) value), .of_value h,
    or_contains_append (by decide) value _, or_contains_append (by decide) value _,
    or_contains_append (by decide) value _⟩

/-- Each flag sets what it is for, and changes nothing else. -/
theorem settles_flag (start : Options) :
    Settles start ["--strict"] (start.apply .strict)
      ∧ Settles start ["--denylist-only"] (start.apply .denylistOnly)
      ∧ Settles start ["--json"] (start.apply .json) :=
  ⟨⟨rfl, rfl, rfl, (Bool.or_true _).symm, (Bool.or_false _).symm, (Bool.or_false _).symm⟩,
    ⟨rfl, rfl, rfl, (Bool.or_false _).symm, (Bool.or_true _).symm, (Bool.or_false _).symm⟩,
    ⟨rfl, rfl, rfl, (Bool.or_false _).symm, (Bool.or_false _).symm, (Bool.or_true _).symm⟩⟩

/-- An input settles nothing. -/
theorem settles_input {argument : String} (h : Kind.input.covers argument = true)
    (start : Options) : Settles start [argument] start := by
  have hflag : ∀ (flag : String) (held : Bool), ['-', '-'] <+: flag.toList →
      held = (held || [argument].contains flag) := by
    intro flag held hminus
    rw [List.contains_cons, beq_false_of_ne (ne_of_input hminus h).symm]
    exact (Bool.or_false _).symm
  exact ⟨.of_other (not_begins_of_input (by decide) h),
    .of_other (not_begins_of_input (by decide) h),
    .of_other (not_begins_of_input (by decide) h), hflag _ _ (by decide),
    hflag _ _ (by decide), hflag _ _ (by decide)⟩

/-- What one argument that can be read does: it settles an option, or it is
one of the inputs and settles nothing. -/
theorem settles_of_readArgument {argument : String} {read : Argument} (start : Options)
    (h : readArgument argument = .ok read) :
    match read with
    | .setting setting => Kind.input.covers argument = false
        ∧ Settles start [argument] (start.apply setting)
    | .input path => path = argument ∧ Kind.input.covers argument = true
        ∧ Settles start [argument] start := by
  cases form argument with
  | maxDepth value =>
    rw [readArgument_maxDepth] at h
    obtain ⟨limit, hlimit, rfl⟩ := exists_of_limitSetting h
    exact ⟨not_input_append (by decide) value,
      settles_maxDepth (Config.limit?_eq_some_iff.1 hlimit) start⟩
  | maxChain value =>
    rw [readArgument_maxChain] at h
    obtain ⟨limit, hlimit, rfl⟩ := exists_of_limitSetting h
    exact ⟨not_input_append (by decide) value,
      settles_maxChain (Config.limit?_eq_some_iff.1 hlimit) start⟩
  | color value =>
    rw [readArgument_color] at h
    obtain ⟨mode, hmode, rfl⟩ := exists_of_colorSetting h
    exact ⟨not_input_append (by decide) value,
      settles_color (colorMode?_eq_some_iff.1 hmode) start⟩
  | strict =>
    obtain rfl := Except.ok.inj h
    exact ⟨rfl, (settles_flag start).1⟩
  | denylistOnly =>
    obtain rfl := Except.ok.inj h
    exact ⟨rfl, (settles_flag start).2.1⟩
  | json =>
    obtain rfl := Except.ok.inj h
    exact ⟨rfl, (settles_flag start).2.2⟩
  | input hinput =>
    rw [readArgument_input hinput] at h
    obtain rfl := Except.ok.inj h
    exact ⟨rfl, hinput, settles_input hinput start⟩
  | unknown hunknown =>
    rw [readArgument_unknown hunknown] at h
    cases h

-- ============================================================ command lines

/-- Arguments that can all be read, from left to right. What they come to is
told kind by kind, and what is left over are the inputs, in order. -/
theorem parseFrom_ok {arguments inputs inputs' : List String} {start finish : Options}
    (h : parseFrom start inputs arguments = .ok (finish, inputs')) :
    (∀ argument ∈ arguments, ∃ read, readArgument argument = .ok read)
      ∧ inputs' = inputs ++ arguments.filter Kind.input.covers
      ∧ Settles start arguments finish := by
  induction arguments generalizing start inputs with
  | nil =>
    obtain ⟨rfl, rfl⟩ := Prod.mk.inj (Except.ok.inj h)
    exact ⟨nofun, (List.append_nil inputs).symm, .nil start⟩
  | cons argument arguments ih =>
    rw [parseFrom] at h
    cases hread : readArgument argument with
    | error e =>
      rw [hread] at h
      cases h
    | ok read =>
      rw [hread] at h
      have hthis := settles_of_readArgument start hread
      cases read with
      | setting setting =>
        obtain ⟨hkind, hsettles⟩ := hthis
        obtain ⟨hall, hinputs, hrest⟩ := ih h
        refine ⟨List.forall_mem_cons.2 ⟨⟨_, hread⟩, hall⟩, ?_, hsettles.append hrest⟩
        rw [hinputs, List.filter_cons_of_neg (Bool.eq_false_iff.1 hkind)]
      | input path =>
        obtain ⟨rfl, hkind, hsettles⟩ := hthis
        obtain ⟨hall, hinputs, hrest⟩ := ih h
        refine ⟨List.forall_mem_cons.2 ⟨⟨_, hread⟩, hall⟩, ?_, hsettles.append hrest⟩
        rw [hinputs, List.filter_cons_of_pos hkind, List.append_assoc, List.singleton_append]

/-- The first argument that cannot be read ends the reading. All before it can
be read, and what stands behind it is not looked at. -/
theorem parseFrom_error {arguments inputs : List String} {start : Options} {error : OptionError}
    (h : parseFrom start inputs arguments = .error error) :
    ∃ before argument after, arguments = before ++ argument :: after
      ∧ (∀ a ∈ before, ∃ read, readArgument a = .ok read)
      ∧ readArgument argument = .error error := by
  induction arguments generalizing start inputs with
  | nil => cases h
  | cons argument arguments ih =>
    rw [parseFrom] at h
    cases hread : readArgument argument with
    | error e =>
      rw [hread] at h
      obtain rfl := Except.error.inj h
      exact ⟨[], argument, arguments, rfl, nofun, hread⟩
    | ok read =>
      rw [hread] at h
      have hrest : ∃ start inputs, parseFrom start inputs arguments = .error error := by
        cases read with
        | setting setting => exact ⟨_, _, h⟩
        | input path => exact ⟨_, _, h⟩
      obtain ⟨start', inputs', hrest⟩ := hrest
      obtain ⟨before, faulty, after, rfl, hbefore, hfaulty⟩ := ih hrest
      exact ⟨argument :: before, faulty, after, rfl,
        List.forall_mem_cons.2 ⟨⟨read, hread⟩, hbefore⟩, hfaulty⟩

/-- An argument that cannot be read ends the reading wherever it stands. -/
theorem readable_of_parse {base : Config} {arguments : List String}
    {result : Options × List String} (h : parse base arguments = .ok result) :
    ∀ argument ∈ arguments, ∀ message, ¬ Faulty argument message := by
  intro argument hmem message hfaulty
  obtain ⟨error, herror, -⟩ := faulty_iff.1 hfaulty
  obtain ⟨read, hread⟩ := (parseFrom_ok h).1 argument hmem
  rw [hread] at herror
  cases herror

-- =================================================================== order

/-- Arguments in another order, in which those of one kind stand as they
stood. -/
structure Rearranged (arguments arguments' : List String) : Prop where
  perm : arguments.Perm arguments'
  kinds : ∀ kind : Kind, arguments'.filter kind.covers = arguments.filter kind.covers

/-- What arguments come to does not depend on the order of those of different
kinds. -/
theorem Settles.of_rearranged {start finish : Options} {arguments arguments' : List String}
    (h : Settles start arguments finish) (k : Rearranged arguments arguments') :
    Settles start arguments' finish := by
  have hflag : ∀ flag, arguments'.contains flag = arguments.contains flag :=
    fun flag => (k.perm.contains_eq).symm
  refine ⟨h.maxDepth.of_filter_eq (k.kinds .maxDepth), h.maxChain.of_filter_eq (k.kinds .maxChain),
    h.color.of_filter_eq (k.kinds .color), ?_, ?_, ?_⟩
  · rw [hflag, h.strictLiterals]
  · rw [hflag, h.denylistOnly]
  · rw [hflag, h.json]

/-- Arguments come to one thing only. -/
theorem Settles.unique {start finish finish' : Options} {arguments : List String}
    (h : Settles start arguments finish) (k : Settles start arguments finish') :
    finish = finish' := by
  obtain ⟨⟨depth, chain, strict, denylist⟩, json, color⟩ := finish
  obtain ⟨⟨depth', chain', strict', denylist'⟩, json', color'⟩ := finish'
  obtain rfl : depth = depth' := h.maxDepth.unique k.maxDepth fun _ => NamesLimit.unique
  obtain rfl : chain = chain' := h.maxChain.unique k.maxChain fun _ => NamesLimit.unique
  obtain rfl : color = color' := h.color.unique k.color fun _ => NamesMode.unique
  obtain rfl : strict = strict' := h.strictLiterals.trans k.strictLiterals.symm
  obtain rfl : denylist = denylist' := h.denylistOnly.trans k.denylistOnly.symm
  obtain rfl : json = json' := h.json.trans k.json.symm
  rfl

/-- Arguments of different kinds may change places. Within a kind the order
counts, since of several values the last one holds. -/
theorem parse_of_rearranged {base : Config} {arguments arguments' : List String}
    {result : Options × List String} (h : parse base arguments = .ok result)
    (k : Rearranged arguments arguments') : parse base arguments' = .ok result := by
  obtain ⟨options, inputs⟩ := result
  obtain ⟨hread, hinputs, hsettles⟩ := parseFrom_ok h
  cases hparse : parse base arguments' with
  | error error =>
    obtain ⟨before, argument, after, harguments, -, hfaulty⟩ := parseFrom_error hparse
    have hmem : argument ∈ arguments := by
      rw [k.perm.mem_iff, harguments]
      exact List.mem_append_right _ List.mem_cons_self
    obtain ⟨read, hok⟩ := hread argument hmem
    rw [hfaulty] at hok
    cases hok
  | ok result =>
    obtain ⟨options', inputs'⟩ := result
    obtain ⟨-, hinputs', hsettles'⟩ := parseFrom_ok hparse
    rw [k.kinds .input] at hinputs'
    rw [hinputs, hinputs', (hsettles.of_rearranged k).unique hsettles']

-- ================================================================ all of it

/-- A command line fails if an argument of it is faulty, and says so of the
first one. Otherwise its inputs are the arguments that are "-" or do not start
with a minus sign, in order, of an option with a value the last one counts,
and before it what held, a flag counts wherever it stands, and the limits are
positive. So arguments of different kinds may change places. -/
theorem parse_settles (base : Config) (hdepth : 1 ≤ base.maxDepth) (hchain : 1 ≤ base.maxChain)
    (arguments : List String) :
    (match parse base arguments with
      | .error error => ∃ before argument after, arguments = before ++ argument :: after
          ∧ (∀ a ∈ before, ∀ message, ¬ Faulty a message)
          ∧ ∀ message, Faulty argument message ↔ message = error.message
      | .ok (options, inputs) => (∀ a ∈ arguments, ∀ message, ¬ Faulty a message)
          ∧ inputs = arguments.filter Kind.input.covers
          ∧ Settles ⟨base, false, .auto⟩ arguments options
          ∧ 1 ≤ options.config.maxDepth ∧ 1 ≤ options.config.maxChain)
    ∧ ∀ arguments' result, Rearranged arguments arguments' →
      parse base arguments = .ok result → parse base arguments' = .ok result := by
  refine ⟨?_, fun arguments' result k h => parse_of_rearranged h k⟩
  split
  · next error h =>
    obtain ⟨before, argument, after, rfl, hbefore, hfaulty⟩ := parseFrom_error h
    refine ⟨before, argument, after, rfl, ?_, ?_⟩
    -- what was read is not faulty
    · intro a ha message hmessage
      obtain ⟨read, hread⟩ := hbefore a ha
      obtain ⟨error', herror', -⟩ := faulty_iff.1 hmessage
      rw [hread] at herror'
      cases herror'
    · intro message
      rw [faulty_iff, hfaulty]
      constructor
      · intro hmessage
        obtain ⟨error', herror', rfl⟩ := hmessage
        rw [Except.error.inj herror']
      · rintro rfl
        exact ⟨error, rfl, rfl⟩
  -- all could be read; what they settle is told option by option
  · next options inputs h =>
    obtain ⟨-, hinputs, hsettles⟩ := parseFrom_ok h
    exact ⟨readable_of_parse h, hinputs, hsettles, hsettles.maxDepth.one_le hdepth,
      hsettles.maxChain.one_le hchain⟩

/-- Two limits for the same thing, a flag and two inputs. -/
def twoLimits : List String := ["--max-depth=8", "page.weft", "--strict", "--max-depth=4", "-"]

/-- The same with the inputs in front and the flag at the end. -/
def inputsFirst : List String := ["page.weft", "-", "--max-depth=8", "--max-depth=4", "--strict"]

/-- The inputs may be moved in front: the two depths keep their order. -/
theorem rearranged_inputsFirst : Rearranged twoLimits inputsFirst := by
  refine ⟨by decide, fun kind => ?_⟩
  cases kind <;> rfl

/-- The second limit counts, in both orders. -/
theorem parse_settles_twoLimits :
    1 ≤ Config.standard.maxDepth ∧ 1 ≤ Config.standard.maxChain
      ∧ parse .standard twoLimits
        = .ok (⟨⟨4, 128, true, false⟩, false, .auto⟩, ["page.weft", "-"])
      ∧ ["page.weft", "-"] = twoLimits.filter Kind.input.covers
      ∧ Settles ⟨.standard, false, .auto⟩ twoLimits ⟨⟨4, 128, true, false⟩, false, .auto⟩
      ∧ parse .standard inputsFirst
        = .ok (⟨⟨4, 128, true, false⟩, false, .auto⟩, ["page.weft", "-"]) := by
  have hparse : parse .standard twoLimits
      = .ok (⟨⟨4, 128, true, false⟩, false, .auto⟩, ["page.weft", "-"]) := rfl
  obtain ⟨hresult, horder⟩ := parse_settles .standard (by decide) (by decide) twoLimits
  rw [hparse] at hresult
  obtain ⟨-, hinputs, hsettles, -, -⟩ := hresult
  exact ⟨by decide, by decide, hparse, hinputs, hsettles,
    horder inputsFirst _ rearranged_inputsFirst hparse⟩

end UiScript.CommandLine

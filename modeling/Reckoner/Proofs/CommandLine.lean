/-
# What a command line asks for

An argument is a flag, a flag that is given a value, the separator or a plain value, by its
characters alone: `Flag.AskedBy` and `IsFlagForm` write the forms out.  Whether it is taken for what
it looks like depends on what stands in front of it.  As long as that is no more than two plain
values the command line is `Listening`; the first argument that is no plain value, or one value too
many, ends this, and from there on every argument is a value or ignored.

So a flag counts if the command line listens at it, the values are the arguments without the first
separator, and more arguments behind the two paths make a difference only if the command line still
listens there: `Program.run_answers`.
-/
import Mathlib.Tactic.Common
import Reckoner.Program

namespace Reckoner

/-! ## The forms of arguments -/

/-- The letter of a flag behind a single hyphen. -/
def Flag.letter : Flag → Char
  | help => 'h'
  | version => 'V'

/-- The arguments that ask for what a flag shows. -/
inductive Flag.AskedBy (flag : Flag) : String → Prop
  | long : flag.AskedBy flag.long
  /-- The first of several letters counts. -/
  | letters (others : List Flag) :
    flag.AskedBy (String.ofList ('-' :: flag.letter :: others.map Flag.letter))

/-- The argument asks for what a flag shows, or gives a value to a flag. -/
def IsFlagForm (argument : String) : Prop :=
  (∃ flag : Flag, flag.AskedBy argument) ∨
    ∃ (flag : Flag) (value : String), argument = flag.long ++ "=" ++ value

/-- The argument is a value wherever it stands. -/
def IsPlain (argument : String) : Prop := ¬IsFlagForm argument ∧ argument ≠ "--"

namespace ArgumentForm

variable {argument value : String} {flag : Flag} {c : Char} {cs : List Char}

lemma shortFlag?_letter (flag : Flag) : shortFlag? flag.letter = some flag := by
  cases flag <;> rfl

lemma eq_letter_of_shortFlag? (h : shortFlag? c = some flag) : c = flag.letter := by
  unfold shortFlag? at h
  split_ifs at h with hhelp hversion
  · cases h
    exact hhelp
  · cases h
    exact hversion

lemma exists_map_letter (h : ∀ c ∈ cs, (shortFlag? c).isSome) :
    ∃ flags : List Flag, cs = flags.map Flag.letter := by
  induction cs with
  | nil => exact ⟨[], rfl⟩
  | cons c cs ih =>
    obtain ⟨flag, hflag⟩ := Option.isSome_iff_exists.mp (h c (by simp))
    obtain ⟨flags, rfl⟩ := ih fun c' hc' => h c' (by simp [hc'])
    exact ⟨flag :: flags, by rw [List.map_cons, eq_letter_of_shortFlag? hflag]⟩

lemma ofCluster_letters (flag : Flag) (others : List Flag) :
    ofCluster ('-' :: flag.letter :: others.map Flag.letter) = .flag flag := by
  have hall : (others.map Flag.letter).all (fun c => (shortFlag? c).isSome) = true := by
    simp [shortFlag?_letter]
  rw [ofCluster, shortFlag?_letter]
  simp only [hall, if_true]

lemma ofCluster_cases (cs : List Char) :
    (∃ (flag : Flag) (others : List Flag), cs = '-' :: flag.letter :: others.map Flag.letter) ∨
      ofCluster cs = .value := by
  fun_cases ofCluster cs with
  | case1 c rest flag hflag hall =>
    obtain ⟨others, rfl⟩ := exists_map_letter (List.all_eq_true.mp hall)
    exact .inl ⟨flag, others, by rw [eq_letter_of_shortFlag? hflag]⟩
  | case2 => exact .inr rfl
  | case3 => exact .inr rfl
  | case4 => exact .inr rfl

lemma valueFor?_eq_some_iff :
    valueFor? flag argument = some value ↔ argument = flag.long ++ "=" ++ value := by
  unfold valueFor?
  simp only [List.isPrefixOf_iff_prefix]
  constructor
  · intro h
    split at h
    · next hopening =>
      obtain ⟨rest, hrest⟩ := hopening
      cases h
      apply String.toList_injective
      simp [← hrest]
    · cases h
  · rintro rfl
    simp

/-- A value tells which flag it is for. -/
lemma long_append_inj {other : Flag} {value' : String}
    (h : flag.long ++ "=" ++ value = other.long ++ "=" ++ value') :
    flag = other ∧ value = value' := by
  have hchars := congrArg String.toList h
  cases flag <;> cases other <;> simp [Flag.long] at hchars ⊢
  all_goals exact String.toList_injective hchars

lemma long_append_ne (flag other : Flag) (value : String) :
    flag.long ++ "=" ++ value ≠ "--" ∧ flag.long ++ "=" ++ value ≠ other.long := by
  constructor <;> intro h <;> have hchars := congrArg String.toList h
  · cases flag <;> simp [Flag.long] at hchars
  · cases flag <;> cases other <;> simp [Flag.long] at hchars

lemma of_flagWithValue (flag : Flag) (value : String) :
    of (flag.long ++ "=" ++ value) = .flagWithValue flag value := by
  have hne := fun other => long_append_ne flag other value
  have hvalue : ∀ other value', valueFor? other (flag.long ++ "=" ++ value) = some value' →
      flag = other ∧ value = value' := fun other value' h =>
    long_append_inj (valueFor?_eq_some_iff.mp h)
  rw [of, if_neg (hne .help).1, if_neg (hne .help).2, if_neg (hne .version).2]
  have hown : valueFor? flag (flag.long ++ "=" ++ value) = some value :=
    valueFor?_eq_some_iff.mpr rfl
  split
  · next hhelp =>
    obtain ⟨rfl, rfl⟩ := hvalue _ _ hhelp
    rfl
  · next hhelp hversion =>
    obtain ⟨rfl, rfl⟩ := hvalue _ _ hversion
    rfl
  · next hhelp hversion => cases flag <;> simp_all

/-- Nothing but a cluster has another character than a hyphen behind its first one. -/
lemma of_eq_ofCluster {rest : List Char} (h : argument.toList = '-' :: c :: rest) (hc : c ≠ '-') :
    of argument = ofCluster argument.toList := by
  have hne : ∀ text cs, text.toList = '-' :: '-' :: cs → argument ≠ text := by
    intro text cs htext heq
    rw [heq, htext] at h
    exact hc (List.cons.inj (List.cons.inj h).2).1.symm
  have hnone : ∀ flag : Flag, valueFor? flag argument = none := by
    intro flag
    rw [Option.eq_none_iff_forall_ne_some]
    intro value hvalue
    have hlong : ∃ cs, (flag.long ++ "=" ++ value).toList = '-' :: '-' :: cs := by
      cases flag <;> simp [Flag.long]
    obtain ⟨cs, hcs⟩ := hlong
    exact hne _ cs hcs (valueFor?_eq_some_iff.mp hvalue)
  rw [of, if_neg (hne "--" [] rfl), if_neg (hne (Flag.long .help) _ rfl),
    if_neg (hne (Flag.long .version) _ rfl), hnone, hnone]

lemma of_askedBy (h : flag.AskedBy argument) : of argument = .flag flag := by
  cases h with
  | long => cases flag <;> rfl
  | letters others =>
    have hsecond : flag.letter ≠ '-' := by cases flag <;> decide
    rw [of_eq_ofCluster String.toList_ofList hsecond, String.toList_ofList, ofCluster_letters]

lemma of_cases (argument : String) :
    argument = "--" ∨ IsFlagForm argument ∨ of argument = .value := by
  unfold of
  split_ifs with hsep hhelp hversion
  · exact .inl hsep
  · exact .inr (.inl (.inl ⟨.help, hhelp ▸ .long⟩))
  · exact .inr (.inl (.inl ⟨.version, hversion ▸ .long⟩))
  split
  · next hvalue => exact .inr (.inl (.inr ⟨_, _, valueFor?_eq_some_iff.mp hvalue⟩))
  · next hvalue => exact .inr (.inl (.inr ⟨_, _, valueFor?_eq_some_iff.mp hvalue⟩))
  · rcases ofCluster_cases argument.toList with ⟨flag, others, hcs⟩ | hvalue
    · refine .inr (.inl (.inl ⟨flag, ?_⟩))
      rw [← String.ofList_toList (s := argument), hcs]
      exact .letters others
    · exact .inr (.inr hvalue)

lemma of_isPlain (h : IsPlain argument) : of argument = .value := by
  rcases of_cases argument with hsep | hform | hvalue
  · exact absurd hsep h.2
  · exact absurd hform h.1
  · exact hvalue

lemma of_separator : of "--" = .separator := rfl

/-- What only looks like a flag is a value. -/
example : ["--hel", "-hx", "-V=3", "-", "--Help"].map of = List.replicate 5 .value := by
  decide +kernel

end ArgumentForm

/-! ## Arguments one after another -/

/-- Behind these arguments flags and the separator are recognised: there are no more than two, and
none of them is anything but a value. -/
structure Listening (front : List String) : Prop where
  length_le : front.length ≤ 2
  isPlain : ∀ argument ∈ front, IsPlain argument

/-- A flag is recognised in the command line. -/
def FlagTakesEffect (arguments : List String) : Prop :=
  ∃ front argument rest, arguments = front ++ argument :: rest ∧ Listening front ∧
    IsFlagForm argument

/-- There is a separator in the command line, or a value too many. -/
def Settled (arguments : List String) : Prop :=
  ∃ front argument rest, arguments = front ++ argument :: rest ∧ Listening front ∧
    (argument = "--" ∨ front.length = 2 ∧ IsPlain argument)

namespace Listening

variable {front : List String} {argument : String}

lemma nil : Listening [] := ⟨by simp, by simp⟩

lemma append_singleton (h : Listening front) (hlt : front.length < 2) (hplain : IsPlain argument) :
    Listening (front ++ [argument]) where
  length_le := by
    rw [List.length_append, List.length_singleton]
    omega
  isPlain := by
    intro a ha
    rcases List.mem_append.mp ha with ha | ha
    · exact h.isPlain a ha
    · rw [List.mem_singleton.mp ha]
      exact hplain

lemma separator_notMem (h : Listening front) : "--" ∉ front := fun hmem =>
  (h.isPlain "--" hmem).2 rfl

end Listening

/-- A command line listens to its end, or up to a flag, or it is settled. -/
lemma listening_or (arguments : List String) :
    Listening arguments ∨ FlagTakesEffect arguments ∨ Settled arguments := by
  suffices h : ∀ rest front, Listening front → Listening (front ++ rest) ∨
      FlagTakesEffect (front ++ rest) ∨ Settled (front ++ rest) from
    h arguments [] .nil
  intro rest
  induction rest with
  | nil =>
    intro front hfront
    rw [List.append_nil]
    exact .inl hfront
  | cons argument rest ih =>
    intro front hfront
    by_cases hform : IsFlagForm argument
    · exact .inr (.inl ⟨front, argument, rest, rfl, hfront, hform⟩)
    by_cases hsep : argument = "--"
    · exact .inr (.inr ⟨front, argument, rest, rfl, hfront, .inl hsep⟩)
    by_cases hlt : front.length < 2
    · rw [List.append_cons]
      exact ih _ (hfront.append_singleton hlt ⟨hform, hsep⟩)
    · have hlength : front.length = 2 := Nat.le_antisymm hfront.length_le (Nat.not_lt.mp hlt)
      exact .inr (.inr ⟨front, argument, rest, rfl, hfront, .inr ⟨hlength, hform, hsep⟩⟩)

namespace Invocation

variable {front arguments : List String} {argument value : String} {flag : Flag} {job : Job}

/-- Plain values are collected as long as there are no more than two. -/
lemma scan_append {values : List String} (hplain : ∀ a ∈ front, IsPlain a)
    (hle : values.length + front.length ≤ 2) (rest : List String) :
    scan values (front ++ rest) = scan (values ++ front) rest := by
  induction front generalizing values with
  | nil => rw [List.append_nil, List.nil_append]
  | cons a front ih =>
    rw [List.length_cons] at hle
    rw [List.cons_append, scan, ArgumentForm.of_isPlain (hplain a (by simp))]
    simp only
    rw [if_pos (by omega), ih (fun b hb => hplain b (by simp [hb])), List.append_assoc,
      List.singleton_append]
    rw [List.length_append, List.length_singleton]
    omega

lemma ofArguments_append (h : Listening front) (rest : List String) :
    ofArguments (front ++ rest) = scan front rest := by
  rw [ofArguments, scan_append h.isPlain (by simpa using h.length_le), List.nil_append]

lemma ofArguments_listening (h : Listening arguments) :
    ofArguments arguments = ofValues arguments := by
  rw [← List.append_nil arguments, ofArguments_append h, List.append_nil, scan]

lemma ofArguments_flag (h : Listening front) (hflag : flag.AskedBy argument)
    (rest : List String) : ofArguments (front ++ argument :: rest) = .inform flag := by
  rw [ofArguments_append h, scan, ArgumentForm.of_askedBy hflag]

lemma ofArguments_flagWithValue (h : Listening front) (flag : Flag) (value : String)
    (rest : List String) :
    ofArguments (front ++ (flag.long ++ "=" ++ value) :: rest) =
      .unexpectedValue flag value (2 ≤ front.length) := by
  rw [ofArguments_append h, scan, ArgumentForm.of_flagWithValue]

lemma ofArguments_separator (h : Listening front) (rest : List String) :
    ofArguments (front ++ "--" :: rest) = ofValues (front ++ rest) := by
  rw [ofArguments_append h, scan, ArgumentForm.of_separator]

lemma ofArguments_surplus (h : Listening front) (hlength : front.length = 2)
    (hplain : IsPlain argument) (rest : List String) :
    ofArguments (front ++ argument :: rest) = ofValues front := by
  rw [ofArguments_append h, scan, ArgumentForm.of_isPlain hplain]
  simp [hlength]

/-- More than two values ask for the same as the first two of them. -/
lemma ofValues_append {values : List String} (hle : 2 ≤ values.length) (more : List String) :
    ofValues (values ++ more) = ofValues values := by
  match values, hle with
  | _ :: _ :: _, _ => rfl

lemma ofArguments_ne_run (h : FlagTakesEffect arguments) : ofArguments arguments ≠ .run job := by
  obtain ⟨front, argument, rest, rfl, hfront, ⟨flag, hflag⟩ | ⟨flag, value, rfl⟩⟩ := h
  · rw [ofArguments_flag hfront hflag]
    simp
  · rw [ofArguments_flagWithValue hfront]
    simp

lemma length_of_ofValues {values : List String} (h : ofValues values = .run job) :
    2 ≤ values.length := by
  match values, h with
  | _ :: _ :: _, _ => simp

/-- If no flag takes effect, the first separator is left out and the rest are values. -/
lemma ofArguments_of_no_flag (h : ¬FlagTakesEffect arguments) :
    ofArguments arguments = ofValues (arguments.erase "--") := by
  rcases listening_or arguments with hall | hflag | ⟨front, argument, rest, rfl, hfront, hend⟩
  · rw [List.erase_of_not_mem hall.separator_notMem]
    exact ofArguments_listening hall
  · exact absurd hflag h
  · rw [List.erase_append_right _ hfront.separator_notMem]
    rcases hend with rfl | ⟨hlength, hplain⟩
    · rw [ofArguments_separator hfront, List.erase_cons_head]
    · rw [ofArguments_surplus hfront hlength hplain, ofValues_append (by omega)]

/-- Behind a separator or a value too many nothing is lost and nothing is changed. -/
lemma ofArguments_append_of_settled (h : Settled arguments)
    (hjob : ofArguments arguments = .run job) (extra : List String) :
    ofArguments (arguments ++ extra) = .run job := by
  obtain ⟨front, argument, rest, rfl, hfront, rfl | ⟨hlength, hplain⟩⟩ := h
  · rw [ofArguments_separator hfront] at hjob
    rw [List.append_assoc, List.cons_append, ofArguments_separator hfront, ← List.append_assoc,
      ofValues_append (length_of_ofValues hjob), hjob]
  · rw [ofArguments_surplus hfront hlength hplain] at hjob
    rw [List.append_assoc, List.cons_append, ofArguments_surplus hfront hlength hplain, hjob]

lemma listening_of_not_settled (h : ¬Settled arguments)
    (hjob : ofArguments arguments = .run job) : Listening arguments := by
  rcases listening_or arguments with hall | hflag | hsettled
  · exact hall
  · exact absurd hjob (ofArguments_ne_run hflag)
  · exact absurd hsettled h

/-- To two paths anything but a flag may be added. -/
lemma ofArguments_append_of_run {extra : List String} (hjob : ofArguments arguments = .run job)
    (h : Settled arguments ∨ ∀ a ∈ extra.head?, ¬IsFlagForm a) :
    ofArguments (arguments ++ extra) = .run job := by
  by_cases hsettled : Settled arguments
  · exact ofArguments_append_of_settled hsettled hjob extra
  · have hall := listening_of_not_settled hsettled hjob
    have hvalues := hjob
    rw [ofArguments_listening hall] at hvalues
    have hle := length_of_ofValues hvalues
    cases extra with
    | nil => rwa [List.append_nil]
    | cons a rest =>
      have hform : ¬IsFlagForm a := h.resolve_left hsettled a rfl
      by_cases hsep : a = "--"
      · rw [hsep, ofArguments_separator hall, ofValues_append hle, hvalues]
      · rw [ofArguments_surplus hall (Nat.le_antisymm hall.length_le hle) ⟨hform, hsep⟩, hvalues]

end Invocation

namespace Program

lemma run_of_run {arguments : List String} {job : Job}
    (h : Invocation.ofArguments arguments = .run job) (fs : FileSystem) :
    run arguments fs = runJob job fs := by
  rw [run, h]

/-- The answers to all command lines in the tree `fs`. -/
structure Answers (fs : FileSystem) : Prop where
  of_flag : ∀ front argument rest (flag : Flag), Listening front → flag.AskedBy argument →
    run (front ++ argument :: rest) fs = ⟨0, shown flag, "", fs⟩
  of_flagWithValue : ∀ front rest (flag : Flag) value, Listening front →
    run (front ++ (flag.long ++ "=" ++ value) :: rest) fs =
      ⟨2, "", unexpectedValue flag value (2 ≤ front.length), fs⟩
  of_too_few : ∀ arguments, ¬FlagTakesEffect arguments → (arguments.erase "--").length < 2 →
    run arguments fs = ⟨1, usage, "", fs⟩
  of_values : ∀ arguments input output rest, ¬FlagTakesEffect arguments →
    arguments.erase "--" = input :: output :: rest →
    Invocation.ofArguments arguments = .run ⟨input, output⟩ ∧
    run arguments fs = runJob ⟨input, output⟩ fs
  /-- Behind a separator every two arguments are paths. -/
  of_separator : ∀ input output rest,
    run ("--" :: input :: output :: rest) fs = runJob ⟨input, output⟩ fs
  of_extra : ∀ arguments extra job, Invocation.ofArguments arguments = .run job →
    (Settled arguments ∨ ∀ argument ∈ extra.head?, ¬IsFlagForm argument) →
    run (arguments ++ extra) fs = run arguments fs
  /-- Otherwise the flag that is added takes effect. -/
  of_extra_flag : ∀ arguments argument rest job, Invocation.ofArguments arguments = .run job →
    ¬Settled arguments → IsFlagForm argument → FlagTakesEffect (arguments ++ argument :: rest)

/-- **A command line is answered by its flags, or else by its first two values.** -/
theorem run_answers (fs : FileSystem) : Answers fs := by
  constructor
  case of_flag =>
    intro front argument rest flag hfront hflag
    rw [run, Invocation.ofArguments_flag hfront hflag]
  case of_flagWithValue =>
    intro front rest flag value hfront
    rw [run, Invocation.ofArguments_flagWithValue hfront]
  case of_too_few =>
    intro arguments hflag hlt
    rw [run, Invocation.ofArguments_of_no_flag hflag]
    match arguments.erase "--", hlt with
    | [], _ => rfl
    | [_], _ => rfl
  case of_values =>
    intro arguments input output rest hflag hvalues
    have hjob : Invocation.ofArguments arguments = .run ⟨input, output⟩ := by
      rw [Invocation.ofArguments_of_no_flag hflag, hvalues]
      rfl
    exact ⟨hjob, run_of_run hjob fs⟩
  case of_separator =>
    intro input output rest
    exact run_of_run (Invocation.ofArguments_separator .nil (input :: output :: rest)) fs
  case of_extra =>
    intro arguments extra job hjob h
    rw [run_of_run (Invocation.ofArguments_append_of_run hjob h), run_of_run hjob]
  case of_extra_flag =>
    intro arguments argument rest job hjob hsettled hform
    exact ⟨arguments, argument, rest, rfl, Invocation.listening_of_not_settled hsettled hjob, hform⟩

end Program
end Reckoner

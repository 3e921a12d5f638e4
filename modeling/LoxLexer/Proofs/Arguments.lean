import LoxLexer.CommandLine
import Mathlib.Data.List.TakeWhile

/-!
The arguments that the program takes.

What is read from left to right, `addArguments_eq_ok_iff`, is a matter of the whole list: the
arguments ahead of the separator have to be `Known`, `--json` may be one of them, and one script may
be left, which has a name. So `--json` can stand anywhere ahead of the separator. A fault that has
been found stays, `addArguments_append`; only an empty script may turn out to be another fault.
-/

namespace LoxLexer

namespace CommandLine

/-! ### Kinds of arguments -/

namespace Argument

variable {cs : List Char}

lemma ofLong?_eq_json_iff {name : String} : Switch.ofLong? name = some .json ↔ name = "json" := by
  unfold Switch.ofLong?
  split_ifs <;> simp_all

lemma ofShort?_ne_json (letter : Char) : Switch.ofShort? letter ≠ some .json := by
  unfold Switch.ofShort?
  split_ifs <;> simp

/-- What stands behind two dashes is an option, whatever becomes of it. -/
lemma ofChars_long {long : List Char} (ne : long ≠ []) :
    ofChars ('-' :: '-' :: long) =
      match Switch.ofLong? (String.ofList (long.takeWhile (· != '='))) with
      | none => unknown
      | some s => if long.contains '=' then valued else switch s := by
  cases long with
  | nil => exact absurd rfl ne
  | cons c long => rfl

/-- So is a letter behind one dash. -/
lemma ofChars_short {letter : Char} (ne : letter ≠ '-') (letters : List Char) :
    ofChars ('-' :: letter :: letters) = (Switch.ofShort? letter).elim unknown switch := by
  unfold ofChars
  split <;> simp_all

lemma ofChars_of_head? (h : cs.head? ≠ some '-') : ofChars cs = operand := by
  unfold ofChars
  split <;> simp_all

/-- An argument is a separator, an option, a dash, or begins with none. -/
lemma shapes (cs : List Char) :
    cs = ['-', '-'] ∨ (∃ long, long ≠ [] ∧ cs = '-' :: '-' :: long) ∨
      (∃ letter letters, letter ≠ '-' ∧ cs = '-' :: letter :: letters) ∨
      cs = ['-'] ∨ cs.head? ≠ some '-' := by
  match cs with
  | [] => simp
  | [c] => by_cases hc : c = '-' <;> simp [hc]
  | c :: d :: cs =>
    by_cases hc : c = '-'
    · by_cases hd : d = '-'
      · by_cases nil : cs = [] <;> simp [hc, hd, nil]
      · simp [hc, hd]
    · simp [hc]

/-- An argument that is read as nothing that could be asked for. -/
def Refused : Argument → Prop
  | separator | operand => False
  | switch s => s ≠ .json
  | valued | unknown => True

lemma refused_short {letter : Char} (ne : letter ≠ '-') (letters : List Char) :
    (ofChars ('-' :: letter :: letters)).Refused := by
  rw [ofChars_short ne]
  cases short : Switch.ofShort? letter with
  | none => trivial
  | some s =>
    rintro rfl
    exact ofShort?_ne_json letter short

lemma refused_long {long : List Char} (ne : long ≠ []) (other : long ≠ ['j', 's', 'o', 'n']) :
    (ofChars ('-' :: '-' :: long)).Refused := by
  rw [ofChars_long ne]
  split
  · trivial
  · next s name =>
    split
    · trivial
    · next bare =>
      rintro rfl
      have all : ∀ c ∈ long, c != '=' := by
        intro c mem
        rw [bne_iff_ne]
        rintro rfl
        exact bare (List.contains_iff_mem.mpr mem)
      rw [List.takeWhile_eq_self_iff.mpr all, ofLong?_eq_json_iff, ← String.toList_inj,
        String.toList_ofList] at name
      exact other name

end Argument

/-- Ahead of the separator these arguments are in place: the option, a dash, and what begins with
none. -/
def Known (a : String) : Prop := a = "--json" ∨ a = "-" ∨ ¬ ['-'] <+: a.toList

lemma dash_isPrefix_iff {cs : List Char} : ['-'] <+: cs ↔ cs.head? = some '-' := by
  cases cs <;> simp [eq_comm]

/-- An argument is what it is read as. -/
lemma ofChars_cases (a : String) :
    (a = "--" ∧ Argument.ofChars a.toList = .separator) ∨
    (a = "--json" ∧ Argument.ofChars a.toList = .switch .json) ∨
    ((Known a ∧ a ≠ "--" ∧ a ≠ "--json") ∧ Argument.ofChars a.toList = .operand) ∨
    ((¬ Known a ∧ a ≠ "--") ∧ (Argument.ofChars a.toList).Refused) := by
  unfold Known
  simp only [dash_isPrefix_iff, ← String.toList_inj, ne_eq]
  have texts : "--".toList = ['-', '-'] ∧ "--json".toList = ['-', '-', 'j', 's', 'o', 'n'] ∧
      "-".toList = ['-'] := by decide
  obtain ⟨separator, option, dash⟩ := texts
  rw [separator, option, dash]
  generalize a.toList = cs
  rcases Argument.shapes cs with rfl | ⟨long, ne, rfl⟩ | ⟨letter, letters, ne, rfl⟩ | rfl | head
  · exact Or.inl ⟨rfl, rfl⟩
  · by_cases named : long = ['j', 's', 'o', 'n']
    · subst named
      exact Or.inr (Or.inl ⟨rfl, rfl⟩)
    · refine Or.inr (Or.inr (Or.inr ⟨?_, Argument.refused_long ne named⟩))
      simp [ne, named]
  · refine Or.inr (Or.inr (Or.inr ⟨?_, Argument.refused_short ne letters⟩))
    simp [ne]
  · exact Or.inr (Or.inr (Or.inl ⟨by simp, rfl⟩))
  · refine Or.inr (Or.inr (Or.inl ⟨⟨Or.inr (Or.inr head), ?_, ?_⟩, Argument.ofChars_of_head? head⟩))
    · rintro rfl
      exact head rfl
    · rintro rfl
      exact head rfl

/-! ### A list of arguments -/

/-- The arguments ahead of the separator, if there is one. -/
def ahead (arguments : List String) : List String := arguments.takeWhile (· ≠ "--")

/-- The arguments behind it. -/
def behind (arguments : List String) : List String := (arguments.dropWhile (· ≠ "--")).drop 1

/-- What is left for the script. -/
def operands (arguments : List String) : List String :=
  (ahead arguments).filter (· ≠ "--json") ++ behind arguments

lemma ahead_cons {a : String} (h : a ≠ "--") (arguments : List String) :
    ahead (a :: arguments) = a :: ahead arguments :=
  List.takeWhile_cons_of_pos (by simpa using h)

lemma behind_cons {a : String} (h : a ≠ "--") (arguments : List String) :
    behind (a :: arguments) = behind arguments := by
  rw [behind, List.dropWhile_cons_of_pos (by simpa using h), behind]

lemma ahead_separator (arguments : List String) : ahead ("--" :: arguments) = [] := by
  simp [ahead]

lemma operands_separator (arguments : List String) :
    operands ("--" :: arguments) = arguments := by
  simp [operands, behind, ahead]

lemma operands_option (arguments : List String) :
    operands ("--json" :: arguments) = operands arguments := by
  have other : "--json" ≠ "--" := by decide
  rw [operands, ahead_cons other, behind_cons other, List.filter_cons_of_neg (by simp), operands]

lemma operands_cons {a : String} (h : a ≠ "--") (h' : a ≠ "--json") (arguments : List String) :
    operands (a :: arguments) = a :: operands arguments := by
  rw [operands, ahead_cons h, behind_cons h, List.filter_cons_of_pos (by simpa using h'), operands,
    List.cons_append]

/-! ### What they add to a request -/

/-- With these arguments for a script the request `r` becomes `r'`. -/
structure Takes (r : Request) (operands : List String) (r' : Request) : Prop where
  script : r.script.toList ++ operands = r'.script.toList
  named : r'.script ≠ some ""
  form : r'.form = r.form

/-- With these arguments the request `r` becomes `r'`. -/
structure Adds (r : Request) (arguments : List String) (r' : Request) : Prop where
  known : ∀ a ∈ ahead arguments, Known a
  once : (ahead arguments).count "--json" ≤ if r.form = .json then 0 else 1
  takes : Takes ⟨r.script, if "--json" ∈ ahead arguments then .json else r.form⟩
    (operands arguments) r'

variable {r r' : Request} {arguments : List String}

lemma toList_append_eq_iff {o o' : Option String} {as : List String} :
    o.toList ++ as = o'.toList ↔ o = none ∧ as = o'.toList ∨ o = o' ∧ as = [] := by
  cases o <;> cases o' <;> simp

lemma toList_inj {o o' : Option String} : o.toList = o'.toList ↔ o = o' := by
  cases o <;> cases o' <;> simp

lemma Takes.script_ne {as : List String} (h : Takes r as r') : r.script ≠ some "" := by
  rcases toList_append_eq_iff.mp h.script with ⟨none, -⟩ | ⟨same, -⟩
  · simp [none]
  · exact same ▸ h.named

lemma takes_nil : Takes r [] r' ↔ r.script ≠ some "" ∧ r = r' := by
  constructor
  · intro h
    have script : r.script = r'.script := toList_inj.mp (by simpa using h.script)
    have form := h.form
    refine ⟨h.script_ne, ?_⟩
    cases r
    cases r'
    simp_all
  · rintro ⟨named, rfl⟩
    exact ⟨by simp, named, rfl⟩

lemma takes_cons {a : String} {as : List String} :
    Takes r (a :: as) r' ↔ r.script = none ∧ Takes ⟨some a, r.form⟩ as r' := by
  constructor
  · rintro ⟨script, named, form⟩
    obtain ⟨none, operand⟩ : r.script = none ∧ a :: as = r'.script.toList := by
      simpa using toList_append_eq_iff.mp script
    exact ⟨none, operand, named, form⟩
  · rintro ⟨none, operand, named, form⟩
    exact ⟨by rw [none]; exact operand, named, form⟩

lemma adds_nil : Adds r [] r' ↔ Takes r [] r' :=
  ⟨fun h => h.takes, fun h => ⟨by simp [ahead], by simp [ahead], h⟩⟩

lemma adds_separator : Adds r ("--" :: arguments) r' ↔ Takes r arguments r' := by
  constructor
  · intro h
    have takes := h.takes
    rw [operands_separator, ahead_separator] at takes
    exact takes
  · intro h
    refine ⟨by simp [ahead_separator], by simp [ahead_separator], ?_⟩
    rw [operands_separator, ahead_separator]
    exact h

lemma adds_option :
    Adds r ("--json" :: arguments) r' ↔
      r.script ≠ some "" ∧ r.form ≠ .json ∧ Adds ⟨r.script, .json⟩ arguments r' := by
  have other : "--json" ≠ "--" := by decide
  constructor
  · rintro ⟨known, once, takes⟩
    rw [ahead_cons other] at known once takes
    rw [List.count_cons_self] at once
    rw [operands_option, if_pos List.mem_cons_self] at takes
    have plain : r.form ≠ .json := by
      intro json
      rw [if_pos json] at once
      omega
    rw [if_neg plain] at once
    refine ⟨takes.script_ne, plain, fun a mem => known a (List.mem_cons_of_mem _ mem), ?_, ?_⟩
    · rw [if_pos rfl]
      omega
    · rwa [ite_self]
  · rintro ⟨-, plain, known, once, takes⟩
    rw [if_pos rfl] at once
    rw [ite_self] at takes
    refine ⟨?_, ?_, ?_⟩
    · rw [ahead_cons other]
      exact List.forall_mem_cons.mpr ⟨Or.inl rfl, known⟩
    · rw [ahead_cons other, List.count_cons_self, if_neg plain]
      omega
    · rwa [ahead_cons other, operands_option, if_pos List.mem_cons_self]

lemma adds_operand {a : String} (known : Known a) (h : a ≠ "--") (h' : a ≠ "--json") :
    Adds r (a :: arguments) r' ↔ r.script = none ∧ Adds ⟨some a, r.form⟩ arguments r' := by
  have mem (as : List String) : "--json" ∈ a :: as ↔ "--json" ∈ as := by simp [h'.symm]
  constructor
  · rintro ⟨knowns, once, takes⟩
    rw [ahead_cons h] at knowns once takes
    rw [List.count_cons_of_ne h'] at once
    simp only [mem, operands_cons h h', takes_cons] at takes
    exact ⟨takes.1, fun b hb => knowns b (List.mem_cons_of_mem _ hb), once, takes.2⟩
  · rintro ⟨none, knowns, once, takes⟩
    refine ⟨?_, ?_, ?_⟩
    · rw [ahead_cons h]
      exact List.forall_mem_cons.mpr ⟨known, knowns⟩
    · rwa [ahead_cons h, List.count_cons_of_ne h']
    · simp only [ahead_cons h, mem, operands_cons h h', takes_cons]
      exact ⟨none, takes⟩

lemma not_adds_of_not_known {a : String} (unknown : ¬ Known a) (h : a ≠ "--") :
    ¬ Adds r (a :: arguments) r' :=
  fun adds => unknown (adds.known a (by simp [ahead_cons h]))

/-! ### Reading from left to right -/

lemma bind_eq_ok_iff {x : Except Stop Request} {f : Request → Except Stop Request} :
    (x >>= f) = .ok r' ↔ ∃ r, x = .ok r ∧ f r = .ok r' := by
  cases x <;> simp [bind, Except.bind]

lemma checked_eq_ok_iff : checked r = .ok r' ↔ r.script ≠ some "" ∧ r = r' := by
  unfold checked
  split_ifs <;> simp_all

lemma addOperand_eq_ok_iff {a : String} :
    addOperand r a = .ok r' ↔ r.script = none ∧ ⟨some a, r.form⟩ = r' := by
  unfold addOperand
  cases r.script <;> simp

lemma addSwitch_eq_ok_iff {s : Switch} :
    addSwitch r s = .ok r' ↔
      s = .json ∧ r.script ≠ some "" ∧ r.form ≠ .json ∧ ⟨r.script, .json⟩ = r' := by
  rw [addSwitch, bind_eq_ok_iff]
  simp only [checked_eq_ok_iff]
  cases s with
  | json =>
    constructor
    · rintro ⟨r, ⟨named, rfl⟩, h⟩
      dsimp only at h
      split_ifs at h with json
      exact ⟨rfl, named, json, Except.ok.inj h⟩
    · rintro ⟨-, named, plain, same⟩
      exact ⟨r, ⟨named, rfl⟩, by rw [if_neg plain, ← same]⟩
  | help => simp
  | version => simp

lemma addOperands_eq_ok_iff : addOperands r arguments = .ok r' ↔ Takes r arguments r' := by
  induction arguments generalizing r with
  | nil => rw [addOperands, checked_eq_ok_iff, takes_nil]
  | cons a as ih =>
    rw [addOperands, bind_eq_ok_iff, takes_cons, ← ih]
    simp [addOperand_eq_ok_iff, and_assoc]

/-- What is read from left to right is what the arguments add. -/
theorem addArguments_eq_ok_iff : addArguments r arguments = .ok r' ↔ Adds r arguments r' := by
  induction arguments generalizing r with
  | nil => rw [addArguments, checked_eq_ok_iff, adds_nil, takes_nil]
  | cons a as ih =>
    rw [addArguments]
    rcases ofChars_cases a with ⟨rfl, read⟩ | ⟨rfl, read⟩ | ⟨⟨known, h, h'⟩, read⟩ |
      ⟨⟨unknown, h⟩, read⟩
    · rw [read, adds_separator]
      exact addOperands_eq_ok_iff
    · simp only [read, bind_eq_ok_iff, addSwitch_eq_ok_iff, true_and, adds_option, ← ih]
      simp [and_assoc]
    · rw [read, adds_operand known h h', ← ih]
      refine bind_eq_ok_iff.trans ⟨?_, ?_⟩
      · rintro ⟨r₁, added, rest⟩
        obtain ⟨free, rfl⟩ := addOperand_eq_ok_iff.mp added
        exact ⟨free, rest⟩
      · rintro ⟨free, rest⟩
        exact ⟨_, addOperand_eq_ok_iff.mpr ⟨free, rfl⟩, rest⟩
    · refine iff_of_false ?_ (not_adds_of_not_known unknown h)
      cases kind : Argument.ofChars a.toList with
      | separator | operand =>
        rw [kind] at read
        exact read.elim
      | valued | unknown => simp
      | switch s =>
        have other : s ≠ .json := by
          rw [kind] at read
          exact read
        simp [bind_eq_ok_iff, addSwitch_eq_ok_iff, other]

/-! ### The option moves -/

lemma ahead_append {us : List String} (h : "--" ∉ us) (vs : List String) :
    ahead (us ++ vs) = us ++ ahead vs := by
  have all : ∀ a ∈ us, decide (a ≠ "--") = true := fun a mem =>
    decide_eq_true (ne_of_mem_of_not_mem mem h)
  rw [ahead, List.takeWhile_append_of_pos all, ahead]

lemma behind_append {us : List String} (h : "--" ∉ us) (vs : List String) :
    behind (us ++ vs) = behind vs := by
  have all : ∀ a ∈ us, decide (a ≠ "--") = true := fun a mem =>
    decide_eq_true (ne_of_mem_of_not_mem mem h)
  rw [behind, List.dropWhile_append_of_pos all, behind]

lemma ahead_option {us : List String} (h : "--" ∉ us) (vs : List String) :
    (ahead (us ++ "--json" :: vs)).Perm (ahead ("--json" :: (us ++ vs))) := by
  have other : "--json" ≠ "--" := by decide
  rw [ahead_append h, ahead_cons other, ahead_cons other, ahead_append h]
  exact List.perm_middle

lemma operands_append_option {us : List String} (h : "--" ∉ us) (vs : List String) :
    operands (us ++ "--json" :: vs) = operands ("--json" :: (us ++ vs)) := by
  rw [operands_option, operands, operands, ahead_append h, ahead_append h, behind_append h,
    behind_append h, behind_cons (by decide), ahead_cons (by decide)]
  simp

/-- The option may as well come first. -/
theorem adds_append_option {us : List String} (h : "--" ∉ us) (vs : List String) :
    Adds r (us ++ "--json" :: vs) r' ↔ Adds r ("--json" :: (us ++ vs)) r' := by
  have perm := ahead_option h vs
  constructor
  · rintro ⟨known, once, takes⟩
    simp only [perm.mem_iff, perm.count_eq, operands_append_option h] at known once takes
    exact ⟨known, once, takes⟩
  · rintro ⟨known, once, takes⟩
    simp only [← perm.mem_iff, ← perm.count_eq, ← operands_append_option h] at known once takes
    exact ⟨known, once, takes⟩

/-! ### Faults stay -/

lemma bind_eq_error_iff {x : Except Stop Request} {f : Request → Except Stop Request} {s : Stop} :
    (x >>= f) = .error s ↔ x = .error s ∨ ∃ r, x = .ok r ∧ f r = .error s := by
  cases x <;> simp [bind, Except.bind]

lemma eq_emptyScript_of_checked {s : Stop} (h : checked r = .error s) : s = .emptyScript := by
  unfold checked at h
  split_ifs at h
  exact (Except.error.inj h).symm

lemma addOperands_append {s : Stop} (h : addOperands r arguments = .error s)
    (other : s ≠ .emptyScript) (more : List String) :
    addOperands r (arguments ++ more) = .error s := by
  induction arguments generalizing r with
  | nil => exact absurd (eq_emptyScript_of_checked h) other
  | cons a as ih =>
    rw [addOperands, bind_eq_error_iff] at h
    rw [List.cons_append, addOperands, bind_eq_error_iff]
    exact h.imp_right fun ⟨r, taken, rest⟩ => ⟨r, taken, ih rest⟩

/-- A fault is found where it stands, whatever follows. -/
theorem addArguments_append {s : Stop} (h : addArguments r arguments = .error s)
    (other : s ≠ .emptyScript) (more : List String) :
    addArguments r (arguments ++ more) = .error s := by
  induction arguments generalizing r with
  | nil => exact absurd (eq_emptyScript_of_checked h) other
  | cons a as ih =>
    rw [addArguments] at h
    rw [List.cons_append, addArguments]
    cases kind : Argument.ofChars a.toList with
    | separator =>
      rw [kind] at h
      exact addOperands_append h other more
    | switch s =>
      simp only [kind, bind_eq_error_iff] at h ⊢
      exact h.imp_right fun ⟨r, taken, rest⟩ => ⟨r, taken, ih rest⟩
    | operand =>
      simp only [kind, bind_eq_error_iff] at h ⊢
      exact h.imp_right fun ⟨r, taken, rest⟩ => ⟨r, taken, ih rest⟩
    | valued =>
      rw [kind] at h
      exact h
    | unknown =>
      rw [kind] at h
      exact h

/-! ### What is asked of the program -/

lemma parse_eq_ok_iff : parse arguments = .ok r ↔ Adds ⟨none, .plain⟩ arguments r :=
  addArguments_eq_ok_iff

lemma exists_takes_iff {form : Form} {as : List String} :
    (∃ r, Takes ⟨none, form⟩ as r) ↔ as.length ≤ 1 ∧ "" ∉ as := by
  constructor
  · rintro ⟨r, script, named, -⟩
    have script : as = r.script.toList := script
    rw [script]
    refine ⟨Option.length_toList_le, ?_⟩
    rwa [Option.mem_toList]
  · rintro ⟨one, named⟩
    refine ⟨⟨as.head?, form⟩, ?_, ?_, rfl⟩
    · match as, one with
      | [], _ => rfl
      | [a], _ => rfl
    · exact fun empty => named (List.mem_of_mem_head? empty)

/-- **Arguments**: they make a request if and only if ahead of the separator each of them is the
option, a dash or begins with none, the option is there once at most, and at most one argument is
left for the script, which is not empty. Then they ask for just this, wherever the option stands
ahead of the separator. Any other outcome, if it is not an empty script, is the same with more
arguments. -/
theorem parse_exact (arguments : List String) :
    ((∃ r, parse arguments = .ok r) ↔
      (∀ a ∈ ahead arguments, a = "--json" ∨ a = "-" ∨ ¬ ['-'] <+: a.toList) ∧
      (ahead arguments).count "--json" ≤ 1 ∧
      (operands arguments).length ≤ 1 ∧ "" ∉ operands arguments) ∧
    (∀ r, parse arguments = .ok r →
      (r.form = .json ↔ "--json" ∈ ahead arguments) ∧ r.script = (operands arguments).head?) ∧
    (∀ us vs us' vs' r, us ++ vs = us' ++ vs' → "--" ∉ us → "--" ∉ us' →
      parse (us ++ "--json" :: vs) = .ok r → parse (us' ++ "--json" :: vs') = .ok r) ∧
    ∀ s, parse arguments = .error s → s ≠ .emptyScript →
      ∀ more, parse (arguments ++ more) = .error s := by
  refine ⟨?_, ?_, ?_, fun s h other more => addArguments_append h other more⟩
  · constructor
    · rintro ⟨r, parsed⟩
      obtain ⟨known, once, takes⟩ := parse_eq_ok_iff.mp parsed
      exact ⟨known, once, exists_takes_iff.mp ⟨r, takes⟩⟩
    · rintro ⟨known, once, left⟩
      obtain ⟨r, takes⟩ := exists_takes_iff.mpr left
      exact ⟨r, parse_eq_ok_iff.mpr ⟨known, once, takes⟩⟩
  · intro r parsed
    obtain ⟨-, -, script, -, form⟩ := parse_eq_ok_iff.mp parsed
    have script : operands arguments = r.script.toList := script
    refine ⟨?_, ?_⟩
    · rw [form]
      simp
    · rw [script]
      cases r.script <;> rfl
  · intro us vs us' vs' r same h h' parsed
    rw [parse_eq_ok_iff] at parsed ⊢
    rw [adds_append_option h, same] at parsed
    rwa [adds_append_option h']

/-- A dash for a script, and the option behind it or ahead of it. Behind the separator there is no
room for another script, and then help comes too late. -/
theorem parse_dash_and_option :
    parse ["-", "--json", "--"] = .ok ⟨some "-", .json⟩ ∧
    (∀ a ∈ ["-", "--json"], a = "--json" ∨ a = "-" ∨ ¬ ['-'] <+: a.toList) ∧
    parse ["--json", "-", "--"] = .ok ⟨some "-", .json⟩ ∧
    parse ["-", "--json", "--", "a", "--help"] = .error .unknownArgument := by
  have parsed : parse ["-", "--json", "--"] = .ok ⟨some "-", .json⟩ := by decide +kernel
  have refused : parse ["-", "--json", "--", "a"] = .error .unknownArgument := by decide +kernel
  obtain ⟨accepted, -, moves, -⟩ := parse_exact ["-", "--json", "--"]
  obtain ⟨-, -, -, stays⟩ := parse_exact ["-", "--json", "--", "a"]
  exact ⟨parsed, (accepted.mp ⟨_, parsed⟩).1,
    moves ["-"] ["--"] [] ["-", "--"] _ rfl (by decide) (by decide) parsed,
    stays _ refused (by decide) ["--help"]⟩

end CommandLine

end LoxLexer

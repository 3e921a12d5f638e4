import LoxLexer.Proofs.Json.Writing
import LoxLexer.Proofs.PlainDump

/-!
The tokens of a source can be told from its JSON dump.

Any tokens are written as a document with one object for each. The kind, by its name in `Kind.tags`,
the lexeme and the line can be read there, and the literal unless it is a double that JSON has no
number for. In a source such a double is too large for a finite one, and as its lexeme is there too,
nothing is lost.
-/

namespace LoxLexer

open Json (Value Denotes)

namespace Kind

/-- What the kinds are called in JSON. -/
def tags : List (Kind × String) :=
  [(mark .leftParen, "LeftParen"), (mark .rightParen, "RightParen"),
    (mark .leftBrace, "LeftBrace"), (mark .rightBrace, "RightBrace"), (mark .comma, "Comma"),
    (mark .dot, "Dot"), (mark .minus, "Minus"), (mark .plus, "Plus"),
    (mark .semicolon, "Semicolon"), (mark .slash, "Slash"), (mark .star, "Star"),
    (mark .bang, "Bang"), (mark .bangEqual, "BangEqual"), (mark .equal, "Equal"),
    (mark .equalEqual, "EqualEqual"), (mark .greater, "Greater"),
    (mark .greaterEqual, "GreaterEqual"), (mark .less, "Less"), (mark .lessEqual, "LessEqual"),
    (identifier, "Identifier"), (string, "String"), (number, "Number"),
    (keyword .and, "And"), (keyword .class, "Class"), (keyword .else, "Else"),
    (keyword .false, "False"), (keyword .fun, "Fun"), (keyword .for, "For"), (keyword .if, "If"),
    (keyword .nil, "Nil"), (keyword .or, "Or"), (keyword .print, "Print"),
    (keyword .return, "Return"), (keyword .super, "Super"), (keyword .this, "This"),
    (keyword .true, "True"), (keyword .var, "Var"), (keyword .while, "While"),
    (endOfFile, "EndOfFile")]

/-- Each kind is called by one name, and it is the one that is written. -/
lemma mem_tags_iff {k : Kind} {s : String} : (k, s) ∈ tags ↔ s = k.tag := by
  have written : ∀ entry ∈ tags, entry.2 = entry.1.tag := by decide +kernel
  have every : ∀ k ∈ all, (k, k.tag) ∈ tags := by decide +kernel
  refine ⟨fun h => written _ h, ?_⟩
  rintro rfl
  exact every k (mem_all k)

end Kind

/-- What is in JSON for a literal. -/
inductive Literal.InJson : Option Literal → Value → Prop where
  | absent : InJson none .null
  | text (s) : InJson (some (.text s)) (.text s)
  | number {x n} (h : n.read = x) : InJson (some (.number x)) (.number n)
  | unwritten {x} (h : ¬ x.isFinite) : InJson (some (.number x)) .null

namespace Token

/-- What is in JSON for a token: an object with these members, in this order. -/
def InJson (t : Token) (v : Value) : Prop :=
  ∃ (kind : String) (literal : Value) (line : Numeral), (t.kind, kind) ∈ Kind.tags ∧
    Literal.InJson t.literal literal ∧ line.negative = false ∧ line.value = t.line ∧
    v = .object [("kind", .text kind), ("lexeme", .text t.lexeme), ("literal", literal),
      ("line", .number line)]

/-! ### Tokens are written -/

lemma proper_literal (l : Option Literal) : ((l.map Literal.toJson).getD .null).Proper := by
  rcases l with - | x | s
  · exact .null
  · simp only [Option.map_some, Option.getD_some, Literal.toJson]
    split
    · next finite => exact .number (Literal.jsonStyle.proper_numeral finite)
    · exact .null
  · exact .text s

lemma proper_toJson (t : Token) : t.toJson.Proper := by
  refine .object ?_
  simp only [List.forall_mem_cons, List.not_mem_nil, false_imp_iff, implies_true, and_true]
  exact ⟨.text _, .text _, proper_literal t.literal, .number (proper_natural t.line)⟩

lemma inJson_literal (l : Option Literal) :
    Literal.InJson l ((l.map Literal.toJson).getD .null).value := by
  rcases l with - | x | s
  · exact .absent
  · simp only [Option.map_some, Option.getD_some, Literal.toJson]
    split
    · next finite => exact .number (Literal.jsonStyle.read_numeral finite)
    · next infinite => exact .unwritten infinite
  · exact .text s

lemma inJson_toJson (t : Token) : t.InJson t.toJson.value := by
  refine ⟨_, _, _, Kind.mem_tags_iff.mpr rfl, inJson_literal t.literal, rfl, ?_, rfl⟩
  simp [Numeral.value_eq, Nat.ofDigitChars_ten_toDigits]

/-- Tokens of any kinds, lexemes, literals and lines are written as one document. -/
theorem denotes_array (ts : List Token) :
    ∃ vs, Denotes ((Json.array (ts.map toJson)).render .pretty) (.array vs) ∧
      List.Forall₂ InJson ts vs := by
  have proper : (Json.array (ts.map toJson)).Proper := by
    refine .array fun e he => ?_
    obtain ⟨t, -, rfl⟩ := List.mem_map.mp he
    exact t.proper_toJson
  refine ⟨_, proper.denotes_render Json.Layout.spaced_pretty, ?_⟩
  clear proper
  induction ts with
  | nil => exact .nil
  | cons t ts ih => exact .cons t.inJson_toJson ih

/-! ### Tokens are read -/

/-- All but the literal can be read as it is. -/
lemma InJson.agree {t u : Token} {v : Value} (ht : t.InJson v) (hu : u.InJson v) :
    t.kind = u.kind ∧ t.lexeme = u.lexeme ∧ t.line = u.line := by
  obtain ⟨name, literal, line, named, -, -, number, rfl⟩ := ht
  obtain ⟨name', literal', line', named', -, -, number', same⟩ := hu
  simp only [Value.object.injEq, List.cons.injEq, Prod.mk.injEq, Value.text.injEq,
    Value.number.injEq, true_and, and_true] at same
  obtain ⟨rfl, lexeme, -, rfl⟩ := same
  have kind : t.kind.tag = u.kind.tag :=
    (Kind.mem_tags_iff.mp named).symm.trans (Kind.mem_tags_iff.mp named')
  refine ⟨Kind.tag_inj.mp kind, lexeme, ?_⟩
  exact_mod_cast number.symm.trans number'

/-- A token as a scan finds it. -/
def Scanned (t : Token) : Prop := t.Spelled ∨ ∃ line, t = endOfFile line

lemma scanned_of_mem {ρ : Type} [Reporter ρ] {source : String} {r : ρ} {t : Token}
    (ht : t ∈ (scan source r).tokens.toList) : t.Scanned := by
  obtain ⟨front, line, eq, spelled⟩ := (wellFormed_scan source r).ends
  rw [eq] at ht
  rcases List.mem_append.mp ht with front | last
  · exact Or.inl (spelled t front)
  · exact Or.inr ⟨line, List.mem_singleton.mp last⟩

/-- The literal of such a token is told by its lexeme. -/
lemma Scanned.literal_eq {t u : Token} (ht : t.Scanned) (hu : u.Scanned) (kind : t.kind = u.kind)
    (lexeme : t.lexeme = u.lexeme) : t.literal = u.literal := by
  rcases ht with ht | ⟨m, rfl⟩
  · rcases hu with hu | ⟨n, rfl⟩
    · unfold Spelled at ht hu
      rw [lexeme] at ht
      exact ht.literal_unique hu
    · exact absurd kind ht.kind_ne
  · rcases hu with hu | ⟨n, rfl⟩
    · exact absurd kind.symm hu.kind_ne
    · rfl

lemma Scanned.eq_iff {t u : Token} (ht : t.Scanned) (hu : u.Scanned) :
    t = u ↔ t.kind = u.kind ∧ t.lexeme = u.lexeme ∧ t.line = u.line := by
  refine ⟨fun same => same ▸ ⟨rfl, rfl, rfl⟩, fun ⟨kind, lexeme, line⟩ => ?_⟩
  have literal := ht.literal_eq hu kind lexeme
  cases t
  cases u
  congr

lemma Scanned.eq_of_inJson {t u : Token} {v : Value} (ht : t.Scanned) (hu : u.Scanned)
    (h : t.InJson v) (h' : u.InJson v) : t = u :=
  (ht.eq_iff hu).mpr (h.agree h')

lemma eq_of_forall₂_inJson {ts us : List Token} {vs : List Value} (hts : ∀ t ∈ ts, t.Scanned)
    (hus : ∀ u ∈ us, u.Scanned) (h : List.Forall₂ InJson ts vs) (h' : List.Forall₂ InJson us vs) :
    ts = us := by
  induction h generalizing us with
  | nil =>
    cases h'
    rfl
  | cons first _ ih =>
    cases h' with
    | cons first' others' =>
      rw [(hts _ (by simp)).eq_of_inJson (hus _ (by simp)) first first',
        ih (fun t ht => hts t (by simp [ht])) (fun u hu => hus u (by simp [hu])) others']

lemma Scanned.spells_number {t : Token} (ht : t.Scanned) (kind : t.kind = .number) :
    Kind.number.Spells t.lexeme.toList t.literal := by
  rcases ht with ht | ⟨line, rfl⟩
  · unfold Spelled at ht
    rwa [kind] at ht
  · cases kind

/-- Of the doubles that JSON has no numbers for, only one is found in a source. -/
lemma Scanned.infinite {t : Token} (ht : t.Scanned) (kind : t.kind = .number)
    (null : Literal.InJson t.literal .null) :
    ∃ x, t.literal = some (.number x) ∧ x.negative = false ∧ x.magnitude = Binary64.infinity := by
  obtain ⟨n, sign, literal⟩ := (ht.spells_number kind).exists_numeral
  rw [literal] at null ⊢
  cases null with
  | unwritten infinite =>
    have le : n.read.magnitude ≤ Binary64.infinity := Binary64.nearest_le _ _
    have ge : Binary64.infinity ≤ n.read.magnitude := by simpa [Binary64.isFinite] using infinite
    exact ⟨_, rfl, sign, le.antisymm ge⟩

end Token

lemma dump_json (source : String) :
    dump .json source =
      (Json.array ((scan source (#[] : Array Diagnostic)).tokens.toList.map Token.toJson)).render
        .pretty ++ "\n" := rfl

/-- **JSON dumps**: tokens that are written as an array, or one of them on a line, can be read
again, but for the doubles that are not finite. Two sources have the same dump if and only if they
have the same tokens, and only a number that is too large for a double is null there. -/
theorem json_dump_decodes :
    (∀ ts : List Token, ∃ vs,
      Denotes ((Json.array (ts.map Token.toJson)).render .pretty) (.array vs) ∧
        List.Forall₂ Token.InJson ts vs) ∧
    (∀ t : Token, ∃ v, Denotes (t.toJson.render .compact) v ∧ t.InJson v) ∧
    (∀ a b : String,
      output .json a = output .json b ↔
        (scan a (#[] : Array Diagnostic)).tokens = (scan b (#[] : Array Diagnostic)).tokens) ∧
    ∀ source, ∀ t ∈ (scan source (#[] : Array Diagnostic)).tokens, t.kind = .number →
      Literal.InJson t.literal .null →
      ∃ x, t.literal = some (.number x) ∧ x.negative = false ∧
        x.magnitude = Binary64.infinity := by
  refine ⟨Token.denotes_array, fun t => ?_, fun a b => ?_, fun source t ht => ?_⟩
  · exact ⟨_, t.proper_toJson.denotes_render Json.Layout.spaced_compact, t.inJson_toJson⟩
  · rw [output_eq_iff]
    constructor
    · intro same
      rw [dump_json, dump_json, String.append_left_inj] at same
      obtain ⟨vs, denotes, read⟩ :=
        Token.denotes_array (scan a (#[] : Array Diagnostic)).tokens.toList
      obtain ⟨vs', denotes', read'⟩ :=
        Token.denotes_array (scan b (#[] : Array Diagnostic)).tokens.toList
      rw [← same] at denotes'
      obtain rfl := Value.array.inj (denotes.unique _ denotes'.document)
      exact Array.toList_inj.mp (Token.eq_of_forall₂_inJson (fun t => Token.scanned_of_mem)
        (fun u => Token.scanned_of_mem) read read')
    · intro same
      rw [dump_json, dump_json, same]
  · exact (Token.scanned_of_mem (Array.mem_toList_iff.mpr ht)).infinite

/-- A string with characters that are escaped, and a number. -/
theorem json_dump_decodes_two_tokens :
    let text : Token := ⟨.string, "\"\n\\\"", some (.text "\n\\"), 1⟩
    let number : Token := ⟨.number, "2.50", some (.number (.ofBits 0x4004000000000000)), 7⟩
    (Json.array [text.toJson, number.toJson]).render .pretty =
      "[\n  \x7b\n    \"kind\": \"String\",\n    \"lexeme\": \"\\\"\\n\\\\\\\"\",\n" ++
      "    \"literal\": \"\\n\\\\\",\n    \"line\": 1\n  \x7d,\n" ++
      "  \x7b\n    \"kind\": \"Number\",\n    \"lexeme\": \"2.50\",\n    \"literal\": 2.5,\n" ++
      "    \"line\": 7\n  \x7d\n]" ∧
    ∃ first second n : Numeral,
      Denotes ((Json.array [text.toJson, number.toJson]).render .pretty)
        (.array [.object [("kind", .text "String"), ("lexeme", .text "\"\n\\\""),
            ("literal", .text "\n\\"), ("line", .number first)],
          .object [("kind", .text "Number"), ("lexeme", .text "2.50"), ("literal", .number n),
            ("line", .number second)]]) ∧
      first.value = 1 ∧ second.value = 7 ∧ n.read = .ofBits 0x4004000000000000 := by
  intro text number
  refine ⟨by decide +kernel, ?_⟩
  obtain ⟨vs, denotes, read⟩ := json_dump_decodes.1 [text, number]
  obtain ⟨v, us, ⟨kind, literal, first, named, told, -, line, rfl⟩, others, rfl⟩ :=
    List.forall₂_cons_left_iff.mp read
  obtain ⟨w, us, ⟨kind', literal', second, named', told', -, line', rfl⟩, none, rfl⟩ :=
    List.forall₂_cons_left_iff.mp others
  obtain rfl := List.forall₂_nil_left_iff.mp none
  obtain rfl : kind = "String" := Kind.mem_tags_iff.mp named
  obtain rfl : kind' = "Number" := Kind.mem_tags_iff.mp named'
  cases told with
  | text =>
    cases told' with
    | number same =>
      exact ⟨first, second, _, denotes, line.trans Nat.cast_one, line'.trans Nat.cast_ofNat, same⟩
    | unwritten infinite => exact absurd (by decide) infinite

end LoxLexer

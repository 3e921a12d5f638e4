import LoxLexer.Proofs.LineBreak
import LoxLexer.Proofs.PromptSession

/-!
A text that is answered line by line at the prompt.

No byte of a longer encoding is a newline, so the lines of the bytes are those of the text,
`lines_toUTF8`. If no line leaves a string open to the next one, what the lines give is what the
text gives, `itemsOf_join`.
-/

namespace LoxLexer

/-! ### Lines of text -/

/-- The lines of a text, each with the newline that ends it. The last one may lack it. -/
def linesOf (s : String) : List String := (Prompt.linesBy '\n' s.toList).map String.ofList

lemma map_toList_linesOf (s : String) :
    (linesOf s).map String.toList = Prompt.linesBy '\n' s.toList := by
  simp [linesOf, Function.comp_def]

theorem isLines_linesOf (s : String) :
    Prompt.IsLines '\n' s.toList ((linesOf s).map String.toList) := by
  rw [map_toList_linesOf]
  exact Prompt.isLines_linesBy '\n' s.toList

lemma join_linesOf (s : String) : String.join (linesOf s) = s := by
  rw [← String.toList_inj, String.toList_join, List.flatMap_def, map_toList_linesOf,
    Prompt.flatten_linesBy]

/-- Only the newline is encoded with its byte. -/
lemma eq_newline_of_mem_encoding {c : Char} (h : Prompt.newline ∈ String.utf8EncodeChar c) :
    c = '\n' := by
  obtain ⟨i, hi, byte⟩ := List.getElem_of_mem h
  have first : (String.utf8EncodeChar c)[i].IsUTF8FirstByte := by
    rw [byte]
    decide
  obtain rfl : i = 0 := UInt8.isUTF8FirstByte_getElem_utf8EncodeChar.mp first
  have front : String.utf8EncodeChar c =
      String.utf8EncodeChar '\n' ++ (String.utf8EncodeChar c).tail := by
    have encoding : String.utf8EncodeChar '\n' = [Prompt.newline] := rfl
    rw [encoding, ← byte]
    simp [← List.head_eq_getElem]
  -- decoding gives one and the same character
  have decoded := List.utf8DecodeChar?_utf8Encode_singleton (c := c)
  rw [List.utf8Encode_singleton, front, List.toByteArray_append, ← List.utf8Encode_singleton,
    List.utf8DecodeChar?_utf8Encode_singleton_append] at decoded
  exact (Option.some.inj decoded).symm

namespace Prompt

variable {α : Type} [DecidableEq α]

lemma cons_of_ne {newline a : α} (h : a ≠ newline) (ls : List (List α)) :
    Prompt.cons newline a ls = (a :: ls.headD []) :: ls.tail := by
  unfold Prompt.cons
  rw [if_neg h]
  cases ls <;> rfl

lemma foldr_cons_of_not_mem {newline : α} {us : List α} (h : newline ∉ us) (ne : us ≠ [])
    (ls : List (List α)) :
    us.foldr (Prompt.cons newline) ls = (us ++ ls.headD []) :: ls.tail := by
  induction us with
  | nil => exact absurd rfl ne
  | cons a us ih =>
    have ha : a ≠ newline := fun same => h (by simp [same])
    rw [List.foldr_cons, cons_of_ne ha]
    by_cases nil : us = []
    · simp [nil]
    · rw [ih (fun mem => h (by simp [mem])) nil]
      rfl

lemma linesBy_encoding (cs : List Char) :
    linesBy newline (cs.flatMap String.utf8EncodeChar) =
      (linesBy '\n' cs).map fun line => line.flatMap String.utf8EncodeChar := by
  induction cs with
  | nil => rfl
  | cons c cs ih =>
    have front : linesBy newline ((c :: cs).flatMap String.utf8EncodeChar) =
        (String.utf8EncodeChar c).foldr (Prompt.cons newline)
          (linesBy newline (cs.flatMap String.utf8EncodeChar)) := by
      rw [linesBy, List.flatMap_cons, List.foldr_append]
      rfl
    have back : linesBy '\n' (c :: cs) = Prompt.cons '\n' c (linesBy '\n' cs) := rfl
    rw [front, back, ih]
    by_cases hc : c = '\n'
    · subst hc
      rfl
    · rw [cons_of_ne hc, foldr_cons_of_not_mem (fun mem => hc (eq_newline_of_mem_encoding mem))
        String.utf8EncodeChar_ne_nil]
      cases linesBy '\n' cs <;> simp

end Prompt

lemma toList_toUTF8 (s : String) :
    s.toUTF8.data.toList = s.toList.flatMap String.utf8EncodeChar := by
  have bytes (cs : List Char) :
      (String.ofList cs).toUTF8.data.toList = cs.flatMap String.utf8EncodeChar := by
    simp [List.utf8Encode]
  rw [← bytes, String.ofList_toList]

/-- The lines of the bytes are the bytes of the lines. -/
theorem lines_toUTF8 (s : String) :
    Prompt.lines s.toUTF8.data.toList = (linesOf s).map fun line => line.toUTF8.data.toList := by
  rw [Prompt.lines, toList_toUTF8, Prompt.linesBy_encoding, linesOf, List.map_map]
  refine List.map_congr_left fun cs _ => ?_
  rw [Function.comp_apply, toList_toUTF8, String.toList_ofList]

lemma fromUTF8?_toUTF8 (s : String) :
    String.fromUTF8? s.toUTF8.data.toList.toByteArray = some s := by
  have bytes : s.toUTF8.data.toList.toByteArray = s.toUTF8 := ByteArray.ext (by simp)
  rw [bytes, String.fromUTF8?, String.toUTF8_eq_toByteArray, dif_pos s.isValidUTF8]
  rfl

lemma fromUTF8?_eq_some_iff {bytes : ByteArray} {s : String} :
    String.fromUTF8? bytes = some s ↔ bytes = s.toUTF8 := by
  unfold String.fromUTF8?
  constructor
  · intro h
    split at h
    · exact congrArg String.toByteArray (Option.some.inj h)
    · cases h
  · rintro rfl
    exact dif_pos s.isValidUTF8

lemma fromUTF8?_eq_none_iff {bytes : ByteArray} :
    String.fromUTF8? bytes = none ↔ ¬ bytes.IsValidUTF8 := by
  unfold String.fromUTF8?
  split
  · next valid => exact iff_of_false (by simp) (not_not_intro valid)
  · next invalid => exact iff_of_true rfl invalid

/-! ### Items -/

lemma Item.raise_zero : Item.raise 0 = id := by
  funext i
  cases i <;> rfl

lemma Item.raise_raise (m n : Nat) (i : Item) : (i.raise m).raise n = i.raise (n + m) := by
  cases i <;> simp [raise, Token.raise, Diagnostic.raise, Nat.add_assoc, Nat.add_comm m n]

/-- The items of a text, on later lines, are those of its lines, each on a line after the one
before. -/
theorem itemsOf_join {ls : List String} {text : List Char}
    (cut : Prompt.IsLines '\n' text (ls.map String.toList))
    (closed : ∀ line ∈ ls.dropLast, ∀ d ∈ errorsOf line, d.fault ≠ .unterminatedString)
    (n : Nat) :
    (itemsOf (String.join ls)).map (Item.raise n) =
      (ls.zipIdx n).flatMap fun (line, i) => (itemsOf line).map (Item.raise i) := by
  induction ls generalizing text n with
  | nil =>
    have empty : itemsOf "" = Piece.itemsFrom 1 [] :=
      Scanner.items_eq (s := Scanner.ofSource "") .nil
    simp [empty, Piece.itemsFrom]
  | cons l ls ih =>
    rw [String.join_cons, List.zipIdx_cons, List.flatMap_cons]
    by_cases nil : ls = []
    · simp [nil]
    · obtain ⟨body, plain, text, hl, rest⟩ := cut.cons_of_ne_nil (by simpa using nil)
      have ends : EndsLine l.toList := by simp [EndsLine, hl]
      have one : l.toList.count '\n' = 1 := by simp [hl, List.count_eq_zero.mpr plain]
      rw [List.dropLast_cons_of_ne_nil nil] at closed
      rw [itemsOf_append ends (closed l (by simp)), one, List.map_append, List.map_map,
        ← ih rest fun m hm => closed m (by simp [hm])]
      congr 2
      funext i
      exact Item.raise_raise 1 n i

/-- What is made of the items of a text is made of those of its lines, if it rises as they do. -/
theorem filterMap_itemsOf {β : Type} {f : Item → Option β} {raise : Nat → β → β}
    (rises : ∀ n i, f (i.raise n) = (f i).map (raise n)) {s : String}
    (closed : ∀ line ∈ (linesOf s).dropLast, ∀ d ∈ errorsOf line, d.fault ≠ .unterminatedString) :
    (itemsOf s).filterMap f =
      (linesOf s).zipIdx.flatMap fun (line, i) =>
        ((itemsOf line).filterMap f).map (raise i) := by
  have items : itemsOf s =
      (linesOf s).zipIdx.flatMap fun (line, i) => (itemsOf line).map (Item.raise i) := by
    rw [← itemsOf_join (isLines_linesOf s) closed 0, join_linesOf, Item.raise_zero, List.map_id]
  rw [items, List.filterMap_flatMap]
  simp only [List.filterMap_map, Function.comp_def, rises, List.map_filterMap]

/-! ### Tokens and errors -/

/-- The tokens of a source, without the end of the file. -/
def tokensOf (source : String) : List Token :=
  (scan source (#[] : Array Diagnostic)).tokens.toList.filter (·.kind ≠ .endOfFile)

lemma Piece.kind_ne_endOfFile {p : Piece} {line : Nat} {t : Token}
    (h : p.item? line = some (.token t)) : t.kind ≠ .endOfFile := by
  cases p with
  | word letters =>
    obtain rfl := Item.token.inj (Option.some.inj h)
    simp only [Kind.ofWord]
    cases Keyword.ofText? (String.ofList (word letters).chars) <;> simp
  | mark | number | string =>
    obtain rfl := Item.token.inj (Option.some.inj h)
    simp
  | blank | comment | openString | stray => cases h

lemma tokensOf_eq (source : String) :
    tokensOf source = (itemsOf source).filterMap Item.token? := by
  have kept : ∀ t ∈ (itemsOf source).filterMap Item.token?, t.kind ≠ .endOfFile := by
    intro t ht
    obtain ⟨i, hi, token⟩ := List.mem_filterMap.mp ht
    rw [itemsOf_eq] at hi
    obtain ⟨p, -, line, hp⟩ := Piece.exists_of_mem_itemsFrom hi
    cases i with
    | error d => cases token
    | token u =>
      obtain rfl : u = t := Option.some.inj token
      exact Piece.kind_ne_endOfFile hp
  rw [tokensOf, tokens_scan, List.filter_append, List.filter_eq_self.mpr (by simpa using kept)]
  simp [Token.endOfFile]

/-- Tokens as they are printed one on a line. -/
def listing (ts : List Token) : String := String.join (ts.map fun t => t.display ++ "\n")

lemma dump_plain (source : String) :
    dump .plain source = listing (tokensOf source) ++ "EOF  nil\n" := by
  have last (n : Nat) : (Token.endOfFile n).display ++ "\n" = "EOF  nil\n" := rfl
  rw [tokensOf_eq, dump, tokens_scan]
  simp [listing, String.join_append, last]

/-- How a token is shown does not hang on its line. -/
lemma listing_raise (n : Nat) (ts : List Token) :
    listing (ts.map (Token.raise n)) = listing ts := by
  simp only [listing, List.map_map]
  rfl

lemma listing_flatMap {α : Type} (f : α → List Token) (as : List α) :
    listing (as.flatMap f) = String.join (as.map fun a => listing (f a)) := by
  induction as with
  | nil => rfl
  | cons a as ih =>
    rw [List.map_cons, String.join_cons, ← ih]
    simp [listing, String.join_append]

/-! ### Sessions -/

namespace Prompt

lemma replies_toUTF8 (s : String) :
    replies s.toUTF8.data.toList =
      [.read s.toUTF8.data.toList, .scan s, .print s, .reset] := by
  rw [replies, fromUTF8?_toUTF8]

/-- The lines ahead of the first one that is no text. -/
lemma exists_texts (ls : List (List UInt8)) :
    ∃ (texts : List String) (rest : List (List UInt8)),
      ls = texts.map (fun line => line.toUTF8.data.toList) ++ rest ∧
      ∀ line ∈ rest.head?, ¬ line.toByteArray.IsValidUTF8 := by
  induction ls with
  | nil => exact ⟨[], [], rfl, nofun⟩
  | cons line ls ih =>
    obtain ⟨texts, rest, rfl, invalid⟩ := ih
    cases text : String.fromUTF8? line.toByteArray with
    | none =>
      refine ⟨[], _, rfl, fun other same => ?_⟩
      obtain rfl : line = other := Option.mem_some.mp same
      exact fromUTF8?_eq_none_iff.mp text
    | some source =>
      refine ⟨source :: texts, rest, ?_, invalid⟩
      have bytes := congrArg (fun bytes => bytes.data.toList) (fromUTF8?_eq_some_iff.mp text)
      simpa using bytes

/-- What is done for lines of text. -/
def answered (texts : List String) : List Action :=
  texts.flatMap fun s => [.ask, .read s.toUTF8.data.toList, .scan s, .print s, .reset]

/-- What is done when there is no further line, or one that is no text. -/
def unanswered (rest : List (List UInt8)) : List Action := .ask :: rest.head?.toList.map .read

lemma answered_cons (s : String) (texts : List String) :
    answered (s :: texts) =
      [.ask, .read s.toUTF8.data.toList, .scan s, .print s, .reset] ++ answered texts := rfl

lemma actions_texts (texts : List String) (rest : List (List UInt8)) :
    actions (texts.map (fun line => line.toUTF8.data.toList) ++ rest) =
      answered texts ++ actions rest := by
  induction texts with
  | nil => rfl
  | cons s texts ih =>
    rw [List.map_cons, List.cons_append, actions_cons, ih, replies_toUTF8]
    rfl

lemma outputOf_answered (form : Form) (texts : List String) :
    outputOf form (answered texts) = String.join (texts.map fun s => "> " ++ dump form s) := by
  induction texts with
  | nil => rfl
  | cons s texts ih =>
    rw [answered_cons, outputOf_append, ih]
    simp

lemma diagnosticsOf_answered (texts : List String) :
    diagnosticsOf (answered texts) = Diagnostic.lines (texts.flatMap errorsOf) := by
  induction texts with
  | nil => rfl
  | cons s texts ih =>
    rw [answered_cons, diagnosticsOf_append, ih, List.flatMap_cons, Diagnostic.lines_append]
    simp

/-- Lines that are text are all answered when the streams are unlimited. -/
lemma performed_answered (form : Form) (onFull : Failure) (texts : List String) :
    performed form none onFull [] (answered texts) = (answered texts, none) := by
  refine performed_of_eq_none (performed_unlimited.mpr fun line mem => ?_)
  obtain ⟨s, -, mem⟩ := List.mem_flatMap.mp mem
  obtain rfl : line = s.toUTF8.data.toList := by simpa using mem
  rw [fromUTF8?_toUTF8]
  exact Option.some_ne_none s

lemma performed_unanswered (form : Form) (onFull : Failure) (done : List Action)
    {rest : List (List UInt8)} (invalid : ∀ line ∈ rest.head?, ¬ line.toByteArray.IsValidUTF8) :
    performed form none onFull done (actions rest) =
      (done ++ unanswered rest, if rest = [] then none else some .invalidText) := by
  have asks : Action.ask.failure? form none onFull done = none :=
    failure?_ask.trans (if_neg (by simp [Crosses]))
  cases rest with
  | nil =>
    rw [actions_nil, performed_of_succeeds asks]
    rfl
  | cons line rest =>
    have text := fromUTF8?_eq_none_iff.mpr (invalid line rfl)
    have fails :
        (Action.read line).failure? form none onFull (done ++ [.ask]) = some .invalidText :=
      if_pos text
    rw [actions_cons, performed_of_succeeds asks, replies, List.cons_append,
      performed_of_fails fails]
    simp [unanswered]

/-- On unlimited streams a session answers the lines ahead of the first one that is no text. -/
theorem run_unlimited (form : Form) (texts : List String) {rest : List (List UInt8)}
    (invalid : ∀ line ∈ rest.head?, ¬ line.toByteArray.IsValidUTF8) :
    run form (texts.map (fun line => line.toUTF8.data.toList) ++ rest) .unlimited
        (.ofSink .unlimited) =
      ⟨.after none .diskFull (String.join (texts.map fun s => "> " ++ dump form s) ++ "> "),
        .after none .diskFull (Diagnostic.lines (texts.flatMap errorsOf)) false,
        if rest = [] then none else some .invalidText⟩ := by
  have fits : ¬ Crosses none (outputOf form []) := by simp [Crosses]
  have ran := @run_after form none .diskFull
    (texts.map (fun line => line.toUTF8.data.toList) ++ rest) [] fits none .diskFull
  rw [outputOf_nil, diagnosticsOf_nil, DiagnosticStream.after, Sink.after_empty, actions_texts,
    performed_append, performed_answered, if_pos rfl, List.nil_append,
    performed_unanswered form _ _ invalid] at ran
  have printed : outputOf form (unanswered rest) = "> " := by
    unfold unanswered
    cases rest.head? <;> simp
  have reported : diagnosticsOf (unanswered rest) = "" := by
    unfold unanswered
    cases rest.head? <;> simp
  have forgotten :
      (answered texts ++ unanswered rest).getLast?.any Action.leavesErrors = false := by
    unfold unanswered
    cases rest.head? <;> simp
  rw [resultOf, outputOf_append, diagnosticsOf_append, outputOf_answered, diagnosticsOf_answered,
    printed, reported, forgotten, String.append_empty] at ran
  exact ran

/-- On unlimited streams a session answers all lines that are text. -/
theorem run_texts (form : Form) (ls : List String) :
    let r := run form (ls.map fun line => line.toUTF8.data.toList) .unlimited (.ofSink .unlimited)
    r.failure = none ∧
    r.out.written = (String.join (ls.map fun line => "> " ++ dump form line) ++ "> ").toUTF8 := by
  intro r
  have ran := @run_unlimited form ls [] nofun
  rw [List.append_nil] at ran
  have result : r = _ := ran
  rw [result]
  exact ⟨rfl, rfl⟩

end Prompt

/-- **Line by line**: a text of whose lines none but the last leaves a string open gives at the
prompt, line by line, what it gives at once. -/
theorem scan_line_by_line (s : String)
    (closed : ∀ line ∈ (linesOf s).dropLast, ∀ d ∈ errorsOf line, d.fault ≠ .unterminatedString) :
    let whole := Run.ofSource .plain s .unlimited (.ofSink .unlimited)
    let session :=
      Prompt.run .plain (Prompt.lines s.toUTF8.data.toList) .unlimited (.ofSink .unlimited)
    Prompt.IsLines '\n' s.toList ((linesOf s).map String.toList) ∧
    tokensOf s = (linesOf s).zipIdx.flatMap (fun (line, i) => (tokensOf line).map (Token.raise i)) ∧
    errorsOf s =
      (linesOf s).zipIdx.flatMap (fun (line, i) => (errorsOf line).map (Diagnostic.raise i)) ∧
    session.failure = none ∧ whole.failure = none ∧
    session.out.written =
      (String.join ((linesOf s).map fun line => "> " ++ listing (tokensOf line) ++ "EOF  nil\n") ++
        "> ").toUTF8 ∧
    whole.out.written =
      (String.join ((linesOf s).map fun line => listing (tokensOf line)) ++
        "EOF  nil\n").toUTF8 := by
  intro whole session
  have tokens : tokensOf s =
      (linesOf s).zipIdx.flatMap (fun (line, i) => (tokensOf line).map (Token.raise i)) := by
    simpa only [tokensOf_eq] using filterMap_itemsOf Item.token?_raise closed
  have errors : errorsOf s =
      (linesOf s).zipIdx.flatMap (fun (line, i) => (errorsOf line).map (Diagnostic.raise i)) := by
    simpa only [errorsOf_eq] using filterMap_itemsOf Item.error?_raise closed
  have list : listing (tokensOf s) =
      String.join ((linesOf s).map fun line => listing (tokensOf line)) := by
    rw [tokens, listing_flatMap]
    simp only [listing_raise]
    conv_rhs => rw [← List.zipIdx_map_fst 0 (linesOf s), List.map_map]
    rfl
  have ended := Prompt.run_texts .plain (linesOf s)
  rw [← lines_toUTF8] at ended
  simp only [dump_plain, ← String.append_assoc] at ended
  have result : whole = _ := ofSource_unlimited .plain s
  rw [result, dump_plain, list]
  exact ⟨isLines_linesOf s, tokens, errors, ended.1, rfl, ended.2, rfl⟩

/-- Two lines without a token, a stray character, and a string that the last line leaves open. -/
theorem scan_line_by_line_to_open_string :
    let s := "a\n\n// \"\n@ b\n\"c"
    linesOf s = ["a\n", "\n", "// \"\n", "@ b\n", "\"c"] ∧
    (∀ line ∈ (linesOf s).dropLast, ∀ d ∈ errorsOf line, d.fault ≠ .unterminatedString) ∧
    errorsOf s = [⟨.unexpectedCharacter '@', 4⟩, ⟨.unterminatedString, 5⟩] ∧
    (Prompt.run .plain (Prompt.lines s.toUTF8.data.toList) .unlimited
        (.ofSink .unlimited)).out.written =
      ("> IDENTIFIER a nil\nEOF  nil\n> EOF  nil\n> EOF  nil\n> IDENTIFIER b nil\nEOF  nil\n" ++
        "> EOF  nil\n> ").toUTF8 := by
  have lines : linesOf "a\n\n// \"\n@ b\n\"c" = ["a\n", "\n", "// \"\n", "@ b\n", "\"c"] := by
    decide +kernel
  have closed : ∀ line ∈ ["a\n", "\n", "// \"\n", "@ b\n"], ∀ d ∈ errorsOf line,
      d.fault ≠ .unterminatedString := by
    decide +kernel
  obtain ⟨-, -, errors, -, -, out, -⟩ :=
    scan_line_by_line "a\n\n// \"\n@ b\n\"c" (by rw [lines]; exact closed)
  rw [lines] at errors out
  refine ⟨lines, by rw [lines]; exact closed, errors.trans ?_, out.trans ?_⟩
  · decide +kernel
  · exact congrArg String.toUTF8 (by decide +kernel)

end LoxLexer

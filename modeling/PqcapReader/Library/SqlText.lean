import PqcapReader.Library.Numeral

/-!
# Literals and value lists in SQL text

The reading rule for the literals that generated statements contain: a text literal is
delimited by single quotes, two quotes inside it stand for one, and every other byte
stands for itself. A value list is a comma-separated list of parenthesised tuples.
Rendering a literal doubles its quotes, so reading the rendered list returns it and no
content ends a literal early.
-/

namespace SqlText

open ByteCodec

/-- The single quote, the comma, and the parentheses. -/
def quote : UInt8 := 0x27

def comma : UInt8 := 0x2C

def opening : UInt8 := 0x28

def closing : UInt8 := 0x29

/-- A literal of a value list. -/
inductive Literal
  | null
  | number (value : ℕ)
  | text (value : Bytes)
  deriving DecidableEq, Repr

/-- The text with every quote doubled. -/
def escape (s : Bytes) : Bytes := s.flatMap fun c => if c = quote then [quote, quote] else [c]

/-- The literal for a text. -/
def quoted (s : Bytes) : Bytes := quote :: (escape s ++ [quote])

def Literal.render : Literal → Bytes
  | .null => ascii "NULL"
  | .number value => decimal value
  | .text value => quoted value

/-- A tuple of literals in parentheses. -/
def renderTuple : List Literal → Bytes
  | [] => [opening, closing]
  | first :: rest =>
    opening :: (first.render ++ (rest.flatMap (fun literal => comma :: literal.render) ++ [closing]))

/-- A list of tuples. -/
def renderTuples : List (List Literal) → Bytes
  | [] => []
  | first :: rest => renderTuple first ++ rest.flatMap fun tuple => comma :: renderTuple tuple

/-- The content of a text literal after its opening quote, and what follows the literal. -/
def readQuoted : Bytes → Option (Bytes × Bytes)
  | [] => none
  | c :: rest =>
    if c = quote then
      match rest with
      | [] => some ([], [])
      | d :: rest' =>
        if d = quote then (readQuoted rest').map fun p => (quote :: p.1, p.2)
        else some ([], d :: rest')
    else
      (readQuoted rest).map fun p => (c :: p.1, p.2)

/-- One literal at the start of the text, and what follows it. -/
def readLiteral : Bytes → Option (Literal × Bytes)
  | [] => none
  | c :: rest =>
    if c = quote then
      (readQuoted rest).map fun p => (.text p.1, p.2)
    else if isDigit c then
      some (.number (digitsValue ((c :: rest).takeWhile isDigit)), (c :: rest).dropWhile isDigit)
    else if (c :: rest).take 4 = ascii "NULL" then
      some (.null, (c :: rest).drop 4)
    else
      none

/-- The literals of a tuple after its opening parenthesis, and what follows the tuple. -/
def readFields : ℕ → Bytes → Option (List Literal × Bytes)
  | 0, _ => none
  | fuel + 1, s =>
    match readLiteral s with
    | none => none
    | some (_, []) => none
    | some (first, c :: rest) =>
      if c = comma then (readFields fuel rest).map fun p => (first :: p.1, p.2)
      else if c = closing then some ([first], rest)
      else none

/-- The tuples of a value list that takes up the whole text. -/
def readTuples : ℕ → Bytes → Option (List (List Literal))
  | 0, _ => none
  | _ + 1, [] => none
  | fuel + 1, c :: s =>
    if c = opening then
      match readFields s.length s with
      | none => none
      | some (tuple, []) => some [tuple]
      | some (tuple, d :: rest) =>
        if d = comma then (readTuples fuel rest).map (tuple :: ·) else none
    else
      none

/-- Read a value list. -/
def readValues (s : Bytes) : Option (List (List Literal)) := readTuples s.length s

/-- The text of a literal, when the whole text is one quoted literal. -/
def readText (s : Bytes) : Option Bytes :=
  match readLiteral s with
  | some (.text value, []) => some value
  | _ => none

/-- The byte does not continue a literal. -/
def Ends (c : UInt8) : Prop := c = comma ∨ c = closing

theorem Ends.ne_quote {c : UInt8} (h : Ends c) : c ≠ quote := by
  rcases h with rfl | rfl <;> decide

theorem Ends.isDigit {c : UInt8} (h : Ends c) : isDigit c = false := by
  rcases h with rfl | rfl <;> decide

/-- A byte that is not a quote stands for itself. -/
theorem readQuoted_of_ne {c : UInt8} (hc : c ≠ quote) (rest : Bytes) :
    readQuoted (c :: rest) = (readQuoted rest).map fun p => (c :: p.1, p.2) := by
  cases rest with
  | nil => simp only [readQuoted, if_neg hc]
  | cons d rest => simp only [readQuoted, if_neg hc]

/-- An escaped text is read back up to its closing quote. -/
theorem readQuoted_escape (s rest : Bytes) (hrest : rest.head? ≠ some quote) :
    readQuoted (escape s ++ quote :: rest) = some (s, rest) := by
  induction s with
  | nil =>
    cases rest with
    | nil => rfl
    | cons c rest =>
      have hc : c ≠ quote := fun heq => hrest (congrArg some heq)
      simp only [escape, List.flatMap_nil, List.nil_append, readQuoted, if_true, if_neg hc]
  | cons c s ih =>
    rw [escape, List.flatMap_cons, List.append_assoc]
    by_cases hc : c = quote
    · subst hc
      change readQuoted (quote :: quote :: (escape s ++ quote :: rest)) = _
      simp only [readQuoted, if_true, ih, Option.map_some]
    · rw [if_neg hc]
      change readQuoted (c :: (escape s ++ quote :: rest)) = _
      rw [readQuoted_of_ne hc, ih, Option.map_some]

/-- A rendered literal is read back when what follows does not continue it. -/
theorem readLiteral_render (literal : Literal) {c : UInt8} (hc : Ends c) (rest : Bytes) :
    readLiteral (literal.render ++ c :: rest) = some (literal, c :: rest) := by
  cases literal with
  | null => rfl
  | number value =>
    have hdigits := decimal_isDigit value
    have hread : (decimal value ++ c :: rest).takeWhile isDigit = decimal value := by
      rw [List.takeWhile_append_of_pos hdigits, List.takeWhile_cons_of_neg (by simp [hc.isDigit]),
        List.append_nil]
    have hleft : (decimal value ++ c :: rest).dropWhile isDigit = c :: rest := by
      rw [List.dropWhile_append_of_pos hdigits, List.dropWhile_cons_of_neg (by simp [hc.isDigit])]
    cases hvalue : decimal value with
    | nil => exact absurd hvalue (decimal_ne_nil value)
    | cons digit digits =>
      have hdigit : isDigit digit = true := hdigits digit (hvalue ▸ List.mem_cons_self)
      have hquote : digit ≠ quote := by
        rintro rfl
        exact absurd hdigit (by decide)
      rw [hvalue] at hread hleft
      simp only [Literal.render, hvalue, List.cons_append, readLiteral, if_neg hquote, hdigit,
        if_true]
      rw [← List.cons_append, hread, hleft, ← hvalue, digitsValue_decimal]
  | text value =>
    have hrest : (c :: rest).head? ≠ some quote := fun h => hc.ne_quote (Option.some.inj h)
    have hquoted := readQuoted_escape value (c :: rest) hrest
    simp only [Literal.render, quoted, List.cons_append, List.append_assoc, List.nil_append,
      readLiteral, if_true, hquoted, Option.map_some]

/-- The literals of a rendered tuple are read back. -/
theorem readFields_render (first : Literal) (rest : List Literal) (more : Bytes) {fuel : ℕ}
    (hfuel : rest.length < fuel) :
    readFields fuel (first.render ++ (rest.flatMap (fun literal => comma :: literal.render) ++
      closing :: more)) = some (first :: rest, more) := by
  induction rest generalizing first fuel with
  | nil =>
    obtain ⟨fuel, rfl⟩ := Nat.exists_eq_succ_of_ne_zero (Nat.ne_of_gt hfuel)
    rw [readFields, List.flatMap_nil, List.nil_append, readLiteral_render first (.inr rfl)]
    rfl
  | cons second rest ih =>
    obtain ⟨fuel, rfl⟩ := Nat.exists_eq_succ_of_ne_zero (Nat.ne_of_gt (Nat.zero_lt_of_lt hfuel))
    rw [List.length_cons] at hfuel
    rw [readFields, List.flatMap_cons, List.cons_append, List.cons_append, List.append_assoc,
      readLiteral_render first (.inl rfl)]
    simp only [if_true, ih second (Nat.lt_of_succ_lt_succ hfuel), Option.map_some]

/-- Every piece that begins with a comma takes up room. -/
theorem length_le_flatMap_comma {A : Type*} (render : A → Bytes) (pieces : List A) :
    pieces.length ≤ (pieces.flatMap fun piece => comma :: render piece).length := by
  induction pieces with
  | nil => exact Nat.le_refl _
  | cons piece pieces ih =>
    rw [List.flatMap_cons, List.length_append, List.length_cons, List.length_cons]
    omega

/-- A rendered tuple with at least one literal is read back after its parenthesis. -/
theorem readFields_tuple {tuple : List Literal} (htuple : tuple ≠ []) (more : Bytes) :
    ∃ body, renderTuple tuple ++ more = opening :: body ∧
      readFields body.length body = some (tuple, more) := by
  cases tuple with
  | nil => exact absurd rfl htuple
  | cons first rest =>
    refine ⟨first.render ++ (rest.flatMap (fun literal => comma :: literal.render) ++
      closing :: more), ?_, ?_⟩
    · simp only [renderTuple, List.cons_append, List.append_assoc, List.nil_append]
    · refine readFields_render first rest more ?_
      have hroom := length_le_flatMap_comma Literal.render rest
      simp only [List.length_append, List.length_cons]
      omega

/-- The tuples of a rendered list are read back. -/
theorem readTuples_render {first : List Literal} {rest : List (List Literal)}
    (hfirst : first ≠ []) (hrest : ∀ tuple ∈ rest, tuple ≠ []) {fuel : ℕ}
    (hfuel : rest.length < fuel) :
    readTuples fuel (renderTuple first ++ rest.flatMap fun tuple => comma :: renderTuple tuple) =
      some (first :: rest) := by
  induction rest generalizing first fuel with
  | nil =>
    obtain ⟨fuel, rfl⟩ := Nat.exists_eq_succ_of_ne_zero (Nat.ne_of_gt hfuel)
    obtain ⟨body, hbody, hread⟩ := readFields_tuple hfirst []
    rw [List.flatMap_nil, hbody]
    simp only [readTuples, if_true, hread]
  | cons second rest ih =>
    obtain ⟨fuel, rfl⟩ := Nat.exists_eq_succ_of_ne_zero (Nat.ne_of_gt (Nat.zero_lt_of_lt hfuel))
    rw [List.length_cons] at hfuel
    have htail := ih (hrest second List.mem_cons_self)
      (fun tuple htuple => hrest tuple (List.mem_cons_of_mem _ htuple)) (Nat.lt_of_succ_lt_succ hfuel)
    obtain ⟨body, hbody, hread⟩ := readFields_tuple hfirst
      (comma :: (renderTuple second ++ rest.flatMap fun tuple => comma :: renderTuple tuple))
    rw [List.flatMap_cons, List.cons_append, hbody]
    simp only [readTuples, if_true, hread, htail, Option.map_some]

/-- A rendered list of nonempty tuples is read back, whatever its texts contain. -/
theorem readValues_renderTuples {tuples : List (List Literal)} (hsome : tuples ≠ [])
    (htuples : ∀ tuple ∈ tuples, tuple ≠ []) : readValues (renderTuples tuples) = some tuples := by
  cases tuples with
  | nil => exact absurd rfl hsome
  | cons first rest =>
    refine readTuples_render (htuples first List.mem_cons_self)
      (fun tuple htuple => htuples tuple (List.mem_cons_of_mem _ htuple)) ?_
    obtain ⟨body, hbody, -⟩ := readFields_tuple (htuples first List.mem_cons_self)
      (rest.flatMap fun tuple => comma :: renderTuple tuple)
    have hroom := length_le_flatMap_comma renderTuple rest
    have hfirst : 0 < (renderTuple first).length := by
      cases first with
      | nil => exact Nat.zero_lt_succ _
      | cons literal literals => exact Nat.zero_lt_succ _
    simp only [renderTuples, List.length_append]
    omega

/-- A quoted text is read back. -/
theorem readText_quoted (s : Bytes) : readText (quoted s) = some s := by
  have hquoted := readQuoted_escape s [] (by decide)
  simp only [readText, quoted, readLiteral, if_true, hquoted, Option.map_some]

/-- The byte that separates statements. -/
def semicolon : UInt8 := 0x3B

/-- Whether a literal is open after a text: every quote opens or closes one, so that two quotes
inside a literal leave it open. -/
def openAfter : Bool → Bytes → Bool
  | inside, [] => inside
  | inside, c :: rest => openAfter (if c = quote then !inside else inside) rest

/-- The bytes of a text that stand outside its literals. -/
def outside : Bool → Bytes → Bytes
  | _, [] => []
  | inside, c :: rest =>
    if c = quote then outside (!inside) rest
    else if inside then outside true rest
    else c :: outside false rest

/-- The text leaves no literal open and ends no statement. -/
def KeepsStatement (s : Bytes) : Prop := openAfter false s = false ∧ semicolon ∉ outside false s

instance (s : Bytes) : Decidable (KeepsStatement s) := by
  unfold KeepsStatement
  infer_instance

/-- A text is lexed from the state that the text before it leaves. -/
theorem lex_append (inside : Bool) (s t : Bytes) :
    openAfter inside (s ++ t) = openAfter (openAfter inside s) t ∧
      outside inside (s ++ t) = outside inside s ++ outside (openAfter inside s) t := by
  induction s generalizing inside with
  | nil => exact ⟨rfl, rfl⟩
  | cons c s ih =>
    rw [List.cons_append]
    by_cases hc : c = quote
    · simp only [openAfter, outside, if_pos hc]
      exact ih _
    · obtain ⟨hopen, hout⟩ := ih inside
      simp only [openAfter, outside, if_neg hc]
      refine ⟨hopen, ?_⟩
      cases inside with
      | false => exact congrArg (c :: ·) hout
      | true => exact hout

/-- Texts that keep the statement keep it when joined. -/
theorem KeepsStatement.append {s t : Bytes} (hs : KeepsStatement s) (ht : KeepsStatement t) :
    KeepsStatement (s ++ t) := by
  obtain ⟨hopen, hout⟩ := lex_append false s t
  rw [hs.1] at hopen hout
  refine ⟨hopen.trans ht.1, ?_⟩
  rw [hout, List.mem_append, not_or]
  exact ⟨hs.2, ht.2⟩

/-- Without quotes and semicolons a text keeps the statement. -/
theorem keepsStatement_of_plain {s : Bytes} (h : ∀ c ∈ s, c ≠ quote ∧ c ≠ semicolon) :
    KeepsStatement s := by
  induction s with
  | nil => exact ⟨rfl, List.not_mem_nil⟩
  | cons c s ih =>
    obtain ⟨hquote, hsemicolon⟩ := h c List.mem_cons_self
    obtain ⟨hopen, hout⟩ := ih fun d hd => h d (List.mem_cons_of_mem _ hd)
    simp only [KeepsStatement, openAfter, outside, if_neg hquote, Bool.false_eq_true, if_false,
      List.mem_cons, not_or]
    exact ⟨hopen, hsemicolon.symm, hout⟩

/-- No content of a literal stands outside it, and its quotes do not end it. -/
theorem lex_escape (s : Bytes) : openAfter true (escape s) = true ∧ outside true (escape s) = [] := by
  induction s with
  | nil => exact ⟨rfl, rfl⟩
  | cons c s ih =>
    have hcons : escape (c :: s) = (if c = quote then [quote, quote] else [c]) ++ escape s :=
      List.flatMap_cons ..
    rw [hcons]
    by_cases hc : c = quote
    · rw [if_pos hc]
      simp only [List.cons_append, List.nil_append, openAfter, outside, if_true, Bool.not_true,
        Bool.not_false]
      exact ih
    · rw [if_neg hc]
      simp only [List.cons_append, List.nil_append, openAfter, outside, if_neg hc, if_true]
      exact ih

/-- A literal keeps the statement, whatever its content. -/
theorem Literal.render_keepsStatement (literal : Literal) : KeepsStatement literal.render := by
  cases literal with
  | null => exact keepsStatement_of_plain (by decide +kernel)
  | number value =>
    refine keepsStatement_of_plain fun c hc => ?_
    have hdigit := decimal_isDigit value c hc
    constructor
    · rintro rfl
      exact absurd hdigit (by decide)
    · rintro rfl
      exact absurd hdigit (by decide)
  | text value =>
    obtain ⟨hopen, hout⟩ := lex_escape value
    obtain ⟨hopen', hout'⟩ := lex_append true (escape value) [quote]
    rw [hopen] at hopen' hout'
    rw [hout] at hout'
    constructor
    · exact hopen'
    · change semicolon ∉ outside true (escape value ++ [quote])
      rw [hout']
      exact List.not_mem_nil

/-- Pieces behind commas keep the statement when each piece does. -/
theorem KeepsStatement.flatMap_comma {A : Type*} {render : A → Bytes} {pieces : List A}
    (h : ∀ piece ∈ pieces, KeepsStatement (render piece)) :
    KeepsStatement (pieces.flatMap fun piece => comma :: render piece) := by
  induction pieces with
  | nil => exact ⟨rfl, List.not_mem_nil⟩
  | cons piece pieces ih =>
    have hcomma : KeepsStatement [comma] := by decide
    rw [List.flatMap_cons]
    exact (hcomma.append (h piece List.mem_cons_self)).append
      (ih fun other hother => h other (List.mem_cons_of_mem _ hother))

/-- A tuple keeps the statement. -/
theorem renderTuple_keepsStatement (tuple : List Literal) : KeepsStatement (renderTuple tuple) := by
  have hopening : KeepsStatement [opening] := by decide
  have hclosing : KeepsStatement [closing] := by decide
  cases tuple with
  | nil => exact hopening.append hclosing
  | cons first rest =>
    have hrest : KeepsStatement (rest.flatMap fun literal => comma :: literal.render) :=
      .flatMap_comma fun literal _ => literal.render_keepsStatement
    exact hopening.append (first.render_keepsStatement.append (hrest.append hclosing))

/-- A list of tuples keeps the statement, whatever its texts contain. -/
theorem renderTuples_keepsStatement (tuples : List (List Literal)) :
    KeepsStatement (renderTuples tuples) := by
  cases tuples with
  | nil => exact ⟨rfl, List.not_mem_nil⟩
  | cons first rest =>
    exact (renderTuple_keepsStatement first).append
      (.flatMap_comma fun tuple _ => renderTuple_keepsStatement tuple)

end SqlText

import Reckon.Proofs.Rendering.Scanning

/-!
# String literals

The body of a literal writes pieces, characters and UTF-16 units (`Text.Quoted.Writes`). Characters are read one by one
and runs of units each as a whole (`Text.Quoted.textOfRuns`), but a high surrogate takes the unit behind it along even
if that one is no low surrogate (`Text.Quoted.pairUnits`). So a run is read as UTF-16 (`Text.decodeUtf16`) exactly if
directly in front of each low surrogate there is no high one or an odd number of them (`Text.Quoted.decode_of_writes`).
Where a string is written as a literal this makes no difference, and the literal is read back (`Cursor.next_encode`).
-/

namespace Reckon

namespace Text

/-! ## UTF-16 -/

/-- The characters of UTF-16 units: a high surrogate directly in front of a low one is a character with it, and any
other surrogate is U+FFFD. -/
def decodeUtf16 : List Nat → List Char
  | [] => []
  | [u] => [unitChar u]
  | u :: v :: rest =>
    if isHighSurrogate u && isLowSurrogate v then
      Char.ofNat (0x10000 + (u - 0xD800) * 0x400 + (v - 0xDC00)) :: decodeUtf16 rest
    else unitChar u :: decodeUtf16 (v :: rest)

theorem isLowSurrogate_eq_false {u : Nat} (h : isHighSurrogate u = true) : isLowSurrogate u = false := by
  simp only [isHighSurrogate, isLowSurrogate, Bool.and_eq_true, decide_eq_true_eq, Bool.and_eq_false_iff,
    decide_eq_false_iff_not] at h ⊢
  omega

theorem unitChar_of_isHighSurrogate {u : Nat} (h : isHighSurrogate u = true) : unitChar u = replacement := by
  rw [unitChar, h]
  rfl

theorem pairChars_of_isLowSurrogate {u v : Nat} (h : isLowSurrogate v = true) :
    pairChars u v = [Char.ofNat (0x10000 + (u - 0xD800) * 0x400 + (v - 0xDC00))] :=
  if_pos h

theorem pairChars_of_not_isLowSurrogate {u v : Nat} (h : isLowSurrogate v = false) :
    pairChars u v = [replacement, unitChar v] :=
  if_neg (Bool.eq_false_iff.1 h)

/-- The code point of a pair of surrogates. -/
theorem toNat_ofNat_pair {u v : Nat} (hu : isHighSurrogate u = true) (hv : isLowSurrogate v = true) :
    (Char.ofNat (0x10000 + (u - 0xD800) * 0x400 + (v - 0xDC00))).toNat =
      0x10000 + (u - 0xD800) * 0x400 + (v - 0xDC00) := by
  simp only [isHighSurrogate, isLowSurrogate, Bool.and_eq_true, decide_eq_true_eq] at hu hv
  have hvalid : (0x10000 + (u - 0xD800) * 0x400 + (v - 0xDC00)).isValidChar := .inr ⟨by omega, by omega⟩
  rw [Char.ofNat, dif_pos hvalid]
  rfl

/-- A pair of surrogates does not stand for U+FFFD. -/
theorem ofNat_pair_ne_replacement {u v : Nat} (hu : isHighSurrogate u = true) (hv : isLowSurrogate v = true) :
    Char.ofNat (0x10000 + (u - 0xD800) * 0x400 + (v - 0xDC00)) ≠ replacement := by
  intro h
  have hvalue := toNat_ofNat_pair hu hv
  rw [h] at hvalue
  have hreplacement : replacement.toNat = 0xFFFD := rfl
  omega

theorem decodeUtf16_cons {u : Nat} (hu : isHighSurrogate u = false) (rest : List Nat) :
    decodeUtf16 (u :: rest) = unitChar u :: decodeUtf16 rest := by
  cases rest with
  | nil => rfl
  | cons v rest => rw [decodeUtf16, hu, Bool.false_and, if_neg Bool.false_ne_true]

/-- The UTF-16 units of characters stand for the characters. -/
theorem decodeUtf16_flatMap_utf16Units (cs : List Char) : decodeUtf16 (cs.flatMap utf16Units) = cs := by
  induction cs with
  | nil => rfl
  | cons c cs ih =>
    have hvalid : c.toNat < 0xD800 ∨ 0xDFFF < c.toNat ∧ c.toNat < 0x110000 := c.valid
    rw [List.flatMap_cons, utf16Units]
    split
    · have hhigh : isHighSurrogate c.toNat = false := by
        simp only [isHighSurrogate, Bool.and_eq_false_iff, decide_eq_false_iff_not]
        omega
      have hlow : isLowSurrogate c.toNat = false := by
        simp only [isLowSurrogate, Bool.and_eq_false_iff, decide_eq_false_iff_not]
        omega
      rw [List.singleton_append, decodeUtf16_cons hhigh, ih, unitChar, hhigh, hlow]
      exact congrArg (· :: cs) (Char.ofNat_toNat c)
    · have hhigh : isHighSurrogate (0xD800 + (c.toNat - 0x10000) / 0x400) = true := by
        simp only [isHighSurrogate, Bool.and_eq_true, decide_eq_true_eq]
        omega
      have hlow : isLowSurrogate (0xDC00 + (c.toNat - 0x10000) % 0x400) = true := by
        simp only [isLowSurrogate, Bool.and_eq_true, decide_eq_true_eq]
        omega
      have hvalue : 0x10000 + (0xD800 + (c.toNat - 0x10000) / 0x400 - 0xD800) * 0x400 +
          (0xDC00 + (c.toNat - 0x10000) % 0x400 - 0xDC00) = c.toNat := by omega
      rw [List.cons_append, List.singleton_append, decodeUtf16, hhigh, hlow, Bool.and_self, if_pos rfl, ih, hvalue,
        Char.ofNat_toNat]

namespace Quoted

/-! ## What a body writes -/

/-- A body that consists of characters other than the backslash, simple escapes, and escapes of units, and the pieces
that these are. -/
inductive Writes : (body : List Char) → List Piece → Prop
  | nil : Writes [] []
  | char {c : Char} {cs : List Char} {ps : List Piece} (hc : c ≠ '\\') (h : Writes cs ps) :
    Writes (c :: cs) (.char c :: ps)
  | simple {e x : Char} {cs : List Char} {ps : List Piece} (he : simpleEscape? e = some x) (h : Writes cs ps) :
    Writes ('\\' :: e :: cs) (.char x :: ps)
  | unit {h₁ h₂ h₃ h₄ : Char} {cs : List Char} {ps : List Piece} (hhex : [h₁, h₂, h₃, h₄].all isHexDigit = true)
    (h : Writes cs ps) :
    Writes ('\\' :: 'u' :: h₁ :: h₂ :: h₃ :: h₄ :: cs) (.unit (Numeral.ofDigits 16 [h₁, h₂, h₃, h₄]) :: ps)

theorem Writes.pieces {body : List Char} {ps : List Piece} (h : Writes body ps) : Quoted.pieces body = .ok ps := by
  induction h with
  | nil => rfl
  | char hc _ ih =>
    rw [Quoted.pieces.eq_def]
    simp only [if_pos hc, ih]
    rfl
  | simple he _ ih =>
    rw [Quoted.pieces.eq_def]
    simp only [ne_eq, not_true_eq_false, if_false, he, ih]
    rfl
  | unit hhex _ ih =>
    have hsimple : simpleEscape? 'u' = none := rfl
    rw [Quoted.pieces.eq_def]
    simp only [ne_eq, not_true_eq_false, if_false, hsimple, hhex, if_true, ih]
    rfl

/-! ## Runs of units -/

/-- The text of pieces, given how a run of units is read: characters as they are, and each maximal run as a whole. The
units in `run` are the ones directly in front. -/
def textOfRuns (decodeRun : List Nat → List Char) (run : List Nat) : List Piece → List Char
  | [] => decodeRun run
  | .char c :: rest => decodeRun run ++ c :: textOfRuns decodeRun [] rest
  | .unit u :: rest => textOfRuns decodeRun (run ++ [u]) rest

/-- A reading of pieces that reads runs apart from each other is given by how it reads a run. -/
theorem textOfRuns_eq {decodeRun : List Nat → List Char} {read : List Piece → List Char}
    (hrun : ∀ us, read (us.map .unit) = decodeRun us)
    (hchar : ∀ us c rest, read (us.map .unit ++ .char c :: rest) = decodeRun us ++ c :: read rest)
    (run : List Nat) (ps : List Piece) : textOfRuns decodeRun run ps = read (run.map .unit ++ ps) := by
  induction ps generalizing run with
  | nil => rw [textOfRuns, List.append_nil, hrun]
  | cons p rest ih =>
    cases p with
    | char c => rw [textOfRuns, hchar, ih, List.map_nil, List.nil_append]
    | unit u => rw [textOfRuns, ih, List.map_append, List.append_assoc]; rfl

/-- The characters of a run: a high surrogate takes the unit behind it along. -/
def pairUnits : List Nat → List Char
  | [] => []
  | [u] => [unitChar u]
  | u :: v :: rest =>
    if isHighSurrogate u then pairChars u v ++ pairUnits rest else unitChar u :: pairUnits (v :: rest)

/-- What pieces stand for, run by run. -/
theorem textOfRuns_pairUnits (ps : List Piece) : textOfRuns pairUnits [] ps = ofPieces ps := by
  refine textOfRuns_eq (fun us => ?_) (fun us c rest => ?_) [] ps
  · induction us using pairUnits.induct with
    | case1 | case2 => rfl
    | case3 u v rest hu ih => rw [pairUnits, if_pos hu, ← ih, List.map_cons, List.map_cons, ofPieces, if_pos hu]
    | case4 u v rest hu ih => rw [pairUnits, if_neg hu, ← ih, List.map_cons, List.map_cons, ofPieces, if_neg hu]
  · induction us using pairUnits.induct with
    | case1 | case2 => rfl
    | case3 u v us hu ih =>
      rw [pairUnits, if_pos hu, List.append_assoc, ← ih, List.map_cons, List.map_cons, List.cons_append,
        List.cons_append, ofPieces, if_pos hu]
    | case4 u v us hu ih =>
      rw [pairUnits, if_neg hu, List.cons_append, ← ih, List.map_cons, List.map_cons, List.cons_append,
        List.cons_append, ofPieces, if_neg hu]

/-! ## Pairs -/

/-- The characters of pieces if the units are read as UTF-16. -/
def ofPiecesUtf16 : List Piece → List Char
  | [] => []
  | .char c :: rest => c :: ofPiecesUtf16 rest
  | .unit u :: .unit v :: rest =>
    if isHighSurrogate u && isLowSurrogate v then
      Char.ofNat (0x10000 + (u - 0xD800) * 0x400 + (v - 0xDC00)) :: ofPiecesUtf16 rest
    else unitChar u :: ofPiecesUtf16 (.unit v :: rest)
  | .unit u :: rest => unitChar u :: ofPiecesUtf16 rest

theorem textOfRuns_decodeUtf16 (ps : List Piece) : textOfRuns decodeUtf16 [] ps = ofPiecesUtf16 ps := by
  refine textOfRuns_eq (fun us => ?_) (fun us c rest => ?_) [] ps
  · induction us using decodeUtf16.induct with
    | case1 | case2 => rfl
    | case3 u v rest hpair ih =>
      rw [decodeUtf16, if_pos hpair, ← ih, List.map_cons, List.map_cons, ofPiecesUtf16, if_pos hpair]
    | case4 u v rest hpair ih =>
      rw [decodeUtf16, if_neg hpair, ← ih, List.map_cons, List.map_cons, ofPiecesUtf16, if_neg hpair]
  · induction us using decodeUtf16.induct with
    | case1 | case2 => rfl
    | case3 u v us hpair ih =>
      rw [decodeUtf16, if_pos hpair, List.cons_append, ← ih, List.map_cons, List.map_cons, List.cons_append,
        List.cons_append, ofPiecesUtf16, if_pos hpair]
    | case4 u v us hpair ih =>
      rw [decodeUtf16, if_neg hpair, List.cons_append, ← ih, List.map_cons, List.map_cons, List.cons_append,
        List.cons_append, ofPiecesUtf16, if_neg hpair]

/-- Directly in front of each low surrogate there is no high one or an odd number of them, where `highs` of them stand
directly in front of the pieces. -/
def pairsOff : (highs : Nat) → List Piece → Bool
  | _, [] => true
  | _, .char _ :: rest => pairsOff 0 rest
  | highs, .unit u :: rest =>
    if isHighSurrogate u then pairsOff (highs + 1) rest
    else (!isLowSurrogate u || highs = 0 || highs % 2 = 1) && pairsOff 0 rest

/-- The first piece is a low surrogate. -/
def StartsLow (ps : List Piece) : Prop :=
  ∃ u rest, ps = .unit u :: rest ∧ isLowSurrogate u = true

theorem ofPiecesUtf16_pair {u v : Nat} (hu : isHighSurrogate u = true) (hv : isLowSurrogate v = true)
    (rest : List Piece) : ofPiecesUtf16 (.unit u :: .unit v :: rest) =
      Char.ofNat (0x10000 + (u - 0xD800) * 0x400 + (v - 0xDC00)) :: ofPiecesUtf16 rest := by
  rw [ofPiecesUtf16, hu, hv]
  rfl

/-- A unit that is not part of a pair is a character of its own. -/
theorem ofPiecesUtf16_unit {u : Nat} {rest : List Piece} (h : isHighSurrogate u = true → ¬StartsLow rest) :
    ofPiecesUtf16 (.unit u :: rest) = unitChar u :: ofPiecesUtf16 rest := by
  match rest with
  | [] | .char _ :: _ => rfl
  | .unit v :: rest =>
    have hpair : ¬((isHighSurrogate u && isLowSurrogate v) = true) := by
      rw [Bool.and_eq_true]
      exact fun ⟨hu, hv⟩ => h hu ⟨v, rest, rfl, hv⟩
    rw [ofPiecesUtf16, if_neg hpair]

/-- A unit without one behind it is no part of a pair. -/
theorem pairsOff_unit {u : Nat} {rest : List Piece} (hrest : ∀ v rest', rest = .unit v :: rest' → False) :
    pairsOff 0 (.unit u :: rest) = pairsOff 0 rest := by
  cases rest with
  | nil => simp [pairsOff]
  | cons p rest =>
    cases p with
    | char c => simp [pairsOff]
    | unit v => exact (hrest v rest rfl).elim

/-- Two more high surrogates make no difference where there is one already. -/
theorem pairsOff_add_two {n : Nat} (hn : n ≠ 0) (ps : List Piece) : pairsOff (n + 2) ps = pairsOff n ps := by
  induction ps generalizing n with
  | nil => rfl
  | cons p rest ih =>
    cases p with
    | char c => rfl
    | unit u => simp only [pairsOff, Nat.add_right_comm n 2 1, ih (Nat.succ_ne_zero n), Nat.add_mod_right, hn,
        Nat.add_eq_zero_iff, false_and]

/-- Two high surrogates make no difference unless a low one follows. -/
theorem pairsOff_two_iff (ps : List Piece) : pairsOff 2 ps = true ↔ ¬StartsLow ps ∧ pairsOff 0 ps = true := by
  match ps with
  | [] => exact iff_of_true rfl ⟨nofun, rfl⟩
  | .char c :: rest => exact (and_iff_right (nofun : ¬StartsLow (.char c :: rest))).symm
  | .unit u :: rest =>
    have hstarts : StartsLow (.unit u :: rest) ↔ isLowSurrogate u = true :=
      ⟨by rintro ⟨_, _, ⟨⟩, h⟩; exact h, fun h => ⟨u, rest, rfl, h⟩⟩
    by_cases hu : isHighSurrogate u = true
    · simp [pairsOff, hu, hstarts, isLowSurrogate_eq_false hu, pairsOff_add_two Nat.one_ne_zero]
    · simp [pairsOff, hu, hstarts]

/-- The units of pieces are read as UTF-16 exactly if they pair off. -/
theorem ofPieces_eq_ofPiecesUtf16_iff (ps : List Piece) :
    ofPieces ps = ofPiecesUtf16 ps ↔ pairsOff 0 ps = true := by
  induction ps using ofPieces.induct with
  | case1 => exact iff_of_true rfl rfl
  | case2 c rest ih => rw [ofPieces, ofPiecesUtf16, List.cons_inj_right, ih, pairsOff]
  | case3 u v rest hu ih =>
    have hunit : unitChar u = replacement := unitChar_of_isHighSurrogate hu
    rw [ofPieces, if_pos hu]
    by_cases hv : isLowSurrogate v = true
    · have hhigh : isHighSurrogate v = false := by
        refine Bool.eq_false_iff.2 fun h => ?_
        rw [isLowSurrogate_eq_false h] at hv
        cases hv
      rw [ofPiecesUtf16_pair hu hv, pairChars_of_isLowSurrogate hv, List.singleton_append, List.cons_inj_right, ih]
      simp [pairsOff, hu, hhigh]
    · rw [Bool.not_eq_true] at hv
      have hlow : ¬StartsLow (.unit v :: rest) := by
        rintro ⟨_, _, ⟨⟩, h⟩
        exact absurd h (Bool.eq_false_iff.1 hv)
      rw [ofPiecesUtf16_unit fun _ => hlow, pairChars_of_not_isLowSurrogate hv, hunit, List.cons_append,
        List.cons_inj_right, List.singleton_append]
      by_cases hhigh : isHighSurrogate v = true
      · -- two high surrogates: the second one is lost for a low one behind it
        have hpairs : pairsOff 0 (.unit u :: .unit v :: rest) = pairsOff 2 rest := by simp [pairsOff, hu, hhigh]
        rw [hpairs, pairsOff_two_iff]
        by_cases hstarts : StartsLow rest
        · refine iff_of_false (fun h => ?_) fun h => h.1 hstarts
          obtain ⟨w, rest, rfl, hw⟩ := hstarts
          rw [ofPiecesUtf16_pair hhigh hw, unitChar_of_isHighSurrogate hhigh] at h
          exact ofNat_pair_ne_replacement hhigh hw (List.cons_eq_cons.1 h).1.symm
        · rw [ofPiecesUtf16_unit fun _ => hstarts, List.cons_inj_right, ih, and_iff_right hstarts]
      · rw [ofPiecesUtf16_unit fun h => absurd h hhigh, List.cons_inj_right, ih]
        simp [pairsOff, hu, hhigh, hv]
  | case4 u v rest hu ih =>
    rw [ofPieces, if_neg hu, ofPiecesUtf16_unit fun h => absurd h hu, List.cons_inj_right, ih]
    simp [pairsOff, hu]
  | case5 u rest hrest ih =>
    have hlow : ¬StartsLow rest := by
      rintro ⟨v, rest, rfl, -⟩
      exact hrest v rest rfl
    rw [ofPieces, ofPiecesUtf16_unit fun _ => hlow, List.cons_inj_right, ih, pairsOff_unit hrest]
    exact hrest

theorem Writes.decode {body : List Char} {ps : List Piece} (h : Writes body ps) :
    Quoted.decode body = .ok (ofPieces ps) := by
  rw [Quoted.decode, h.pieces]
  rfl

/-- The raw characters and the simple escapes of a body are read one by one, and its runs of units each as a whole, as
UTF-16 exactly if directly in front of each low surrogate there is no high one or an odd number of them: two high
surrogates go together, and the second one is lost for the low one behind it. -/
theorem decode_of_writes {body : List Char} {ps : List Piece} (h : Writes body ps) :
    decode body = .ok (textOfRuns pairUnits [] ps) ∧
      (decode body = .ok (textOfRuns decodeUtf16 [] ps) ↔ pairsOff 0 ps = true) := by
  rw [h.decode, textOfRuns_pairUnits, textOfRuns_decodeUtf16]
  refine ⟨rfl, ?_⟩
  rw [Except.ok.injEq]
  exact ofPieces_eq_ofPiecesUtf16_iff ps

/-- Three high surrogates in front of a low one: the first two go together, and the last one makes up a pair. -/
theorem decode_of_writes_three :
    let body := "é\\n\\ud800\\ud800\\ud83d\\ude00".toList
    let ps := [.char 'é', .char '\n', .unit 0xD800, .unit 0xD800, .unit 0xD83D, .unit 0xDE00]
    Writes body ps ∧ decode body = .ok (textOfRuns pairUnits [] ps) ∧
      (decode body = .ok (textOfRuns decodeUtf16 [] ps) ↔ pairsOff 0 ps = true) ∧ pairsOff 0 ps = true ∧
      textOfRuns decodeUtf16 [] ps = ['é', '\n', '\uFFFD', '\uFFFD', '😀'] := by
  intro body ps
  have hunit : ∀ {cs ps}, Writes cs ps → Writes ('\\' :: 'u' :: 'd' :: '8' :: '0' :: '0' :: cs) (.unit 0xD800 :: ps) :=
    .unit (by decide)
  have hpair : Writes ['\\', 'u', 'd', '8', '3', 'd', '\\', 'u', 'd', 'e', '0', '0'] [.unit 0xD83D, .unit 0xDE00] :=
    .unit (by decide) (.unit (by decide) .nil)
  have hwrites : Writes body ps := .char (by decide) (.simple rfl (hunit (hunit hpair)))
  obtain ⟨hdecode, hiff⟩ := decode_of_writes hwrites
  exact ⟨hwrites, hdecode, hiff, by decide, by decide +kernel⟩

/-- Two high surrogates in front of a low one: the character that the last two stand for is lost. -/
theorem decode_two_highs :
    let body := "\\ud800\\ud800\\udc00".toList
    let ps := [.unit 0xD800, .unit 0xD800, .unit 0xDC00]
    Writes body ps ∧ textOfRuns decodeUtf16 [] ps = ['\uFFFD', Char.ofNat 0x10000] ∧
      decode body = .ok ['\uFFFD', '\uFFFD', '\uFFFD'] := by
  intro body ps
  have hwrites : Writes body ps := .unit (by decide) (.unit (by decide) (.unit (by decide) .nil))
  have hpieces : ofPieces ps = ['\uFFFD', '\uFFFD', '\uFFFD'] := by decide +kernel
  exact ⟨hwrites, by decide +kernel, hwrites.decode.trans (congrArg _ hpieces)⟩

end Quoted

end Text

/-! ## Literals of strings -/

/-- A literal that is written for a string is recognised as the string. -/
theorem Lexeme.recognise_encode (g : Grammar) (o : Options) (cs rest : List Char) : ∃ hpos,
    recognise g o (Text.Quoted.encode cs ++ rest) =
      .ok ⟨(Text.Quoted.encode cs).length, .string (String.ofList cs), hpos⟩ := by
  have hlength : (Text.Quoted.encode cs).length = (cs.flatMap Text.Quoted.escape).length + 2 := by
    simp [Text.Quoted.encode]
  have htext : Text.Quoted.encode cs ++ rest = '"' :: (cs.flatMap Text.Quoted.escape ++ '"' :: rest) := by
    simp [Text.Quoted.encode]
  obtain ⟨hpos, hquoted⟩ := quoted_encode cs rest
  refine ⟨hlength ▸ hpos, ?_⟩
  rw [htext, recognise, if_pos (.inl rfl), hquoted]
  simp only [hlength]

/-- A string that is written as a literal is the first token of a code that starts with the literal, and its text is the
literal, whatever follows. -/
theorem Cursor.next_encode (g : Grammar) (o : Options) (v t : String) :
    (ofCode (String.ofList (Text.Quoted.encode v.toList) ++ t)).next g o =
      .ok (⟨.string v, .start, Text.Quoted.encode v.toList⟩,
        ⟨Location.start.afterText (Text.Quoted.encode v.toList), t.toList⟩) := by
  have hcode : ofCode (String.ofList (Text.Quoted.encode v.toList) ++ t) =
      ⟨.start, Text.Quoted.encode v.toList ++ t.toList⟩ := by
    rw [ofCode, String.toList_append, String.toList_ofList]
  obtain ⟨hpos, h⟩ := Lexeme.recognise_encode g o v.toList t.toList
  rw [hcode, next, step_of_recognise rfl h]
  simp only [token, forward, List.take_left, List.drop_left, String.ofList_toList]

end Reckon

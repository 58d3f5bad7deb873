import Reckon.Proofs.Lexing.Literals
import Reckon.Proofs.Lexing.Separation
import Reckon.Proofs.Parsing.Places

/-!
# Gaps do not matter

A code may have other gaps in front of its tokens (`Relaid`). No rule of the lexer looks beyond the start of a gap
(`Apart.plain?_append`), so that the same tokens are recognised (`Akin.recognise`), and a gap is passed as a whole
(`Gap.gapLength_append`). So the tokens differ in their places only (`Relaid.placeless`), and the parser does not look
at these: the code is the same program, or there is the same cause of an error (`Program.parse_relaid`).
-/

namespace Reckon

open Lexeme

variable {g : Grammar} {o : Options}

/-! ## Rules in front of a gap -/

namespace Apart

variable {cs rest : List Char}

theorem takeWhile_append (hrest : Apart rest) {p : Char → Bool} (hp : ∀ c ∈ separators, p c = false) (cs : List Char) :
    (cs ++ rest).takeWhile p = cs.takeWhile p := by
  have hcut := takeWhile_take_append (List.takeWhile_sublist (l := cs) p).length_le (hrest.head hp)
  rwa [List.take_length] at hcut

theorem radixInteger?_append (hrest : Apart rest) (cs : List Char) :
    radixInteger? (cs ++ rest) = radixInteger? cs := by
  match cs with
  | [] =>
    have hzero : ∀ c ∈ separators, c ≠ '0' := List.all_iff_forall_prop.1 (by decide)
    cases rest with
    | nil => rfl
    | cons c rest => exact radixInteger?_eq_none (hzero c (hrest c rfl))
  | [c] =>
    have hmark : ∀ c ∈ separators, c ≠ 'x' ∧ c ≠ 'b' := List.all_iff_forall_prop.1 (by decide)
    have hnone : radixInteger? [c] = none := radixInteger?_eq_none_of_head? nofun
    rw [hnone]
    exact radixInteger?_eq_none_of_head? fun d hd => hmark d (hrest d hd)
  | c :: mark :: tail =>
    have hhex : ∀ c ∈ separators, Text.Quoted.isHexDigit c = false := List.all_iff_forall_prop.1 (by decide)
    have hbit : ∀ c ∈ separators, (decide (c = '0') || decide (c = '1')) = false :=
      List.all_iff_forall_prop.1 (by decide)
    by_cases hc : c = '0'
    · subst hc
      rw [List.cons_append, List.cons_append, radixInteger?, radixInteger?]
      simp only [hrest.takeWhile_append hhex tail, hrest.takeWhile_append hbit tail]
    · rw [List.cons_append, radixInteger?_eq_none hc, radixInteger?_eq_none hc]

theorem symbol?_append (hrest : Apart rest) (hcs : cs ≠ []) : symbol? (cs ++ rest) = symbol? cs := by
  obtain ⟨c, tail, rfl⟩ := List.exists_cons_of_ne_nil hcs
  have hpair : ((tail ++ rest).head?.filter fun d => pairSymbols.contains (c, d)) =
      tail.head?.filter fun d => pairSymbols.contains (c, d) := by
    cases tail with
    | cons d tail => rfl
    | nil =>
      have hnone : ((([] : List Char).take 0 ++ rest).head?.filter fun d => pairSymbols.contains (c, d)) = none :=
        filter_pairSymbols_take_append rfl 0 hrest
      exact hnone
  rw [List.cons_append, symbol?, symbol?, hpair]

theorem mark?_append (rest : List Char) (hcs : cs ≠ []) : mark? (cs ++ rest) = mark? cs := by
  obtain ⟨c, tail, rfl⟩ := List.exists_cons_of_ne_nil hcs
  exact mark?_cons c _ _

theorem wordLength_append (hrest : Apart rest) (dots : Bool) (cs : List Char) :
    wordLength dots (cs ++ rest) = wordLength dots cs := by
  have hcut := settled_wordLength dots cs cs.length rest (wordLength_le_length dots cs) hrest
  rwa [List.take_length] at hcut

theorem name?_append (hrest : Apart rest) (hcs : cs ≠ []) : name? (cs ++ rest) = name? cs := by
  have hlength : nameLength (cs ++ rest) = nameLength cs := by
    obtain ⟨c, tail, rfl⟩ := List.exists_cons_of_ne_nil hcs
    rw [List.cons_append, nameLength, nameLength, hrest.wordLength_append, ← List.cons_append, hrest.wordLength_append]
  rw [name?, name?, hlength, List.take_append_of_le_length (nameLength_le_length cs)]

/-- No rule looks beyond the start of a gap. -/
theorem plain?_append (hrest : Apart rest) (hcs : cs ≠ []) : plain? g o (cs ++ rest) = plain? g o cs := by
  have hdecimal := decimalNumber?_take_append (Numeral.length_le_length cs) hrest
  have hoperator := wordOperator?_take_append (g := g) (o := o) (wordLength_le_length false cs) hrest
  have hconstant := constant?_take_append (g := g) (wordLength_le_length true cs) hrest
  rw [List.take_length] at hdecimal hoperator hconstant
  rw [plain?, plain?, hrest.radixInteger?_append, hdecimal, symbolOperator?, symbolOperator?,
    hrest.symbol?_append hcs, mark?_append rest hcs, hoperator, hconstant, hrest.name?_append hcs]

end Apart

/-! ## Gaps -/

namespace Gap

/-- A comment is passed up to what follows its body. -/
theorem gapLength_body {tail : List Char} (htail : gapLength .closing tail = gapLength .inside tail)
    (body : List Char) :
    (¬['*', '/'] <:+: body → gapLength .inside (body ++ tail) = body.length + gapLength .inside tail) ∧
      (¬['*', '/'] <:+: '*' :: body → gapLength .closing (body ++ tail) = body.length + gapLength .inside tail) := by
  induction body with
  | nil => exact ⟨fun _ => (Nat.zero_add _).symm, fun _ => htail.trans (Nat.zero_add _).symm⟩
  | cons c body ih =>
    have hnext (h : ¬['*', '/'] <:+: c :: body) :
        1 + gapLength (if c = '*' then .closing else .inside) (body ++ tail) =
          (c :: body).length + gapLength .inside tail := by
      rw [List.length_cons, Nat.add_right_comm, Nat.add_comm 1]
      split
      · next hc => rw [ih.2 (hc ▸ h)]
      · rw [ih.1 fun hbody => h (List.infix_cons hbody)]
    constructor
    · exact hnext
    · intro h
      have hslash : c ≠ '/' := by
        rintro rfl
        exact h (List.prefix_append ['*', '/'] body).isInfix
      rw [List.cons_append, gapLength, if_neg hslash]
      exact hnext fun hbody => h (List.infix_cons hbody)

/-- A gap is passed as a whole, and then what follows it. -/
theorem gapLength_append {isOpen : Bool} {gap cs : List Char} (h : Gap isOpen gap) (hend : isOpen = false ∨ cs = []) :
    gapLength .outside (gap ++ cs) = gap.length + gapLength .outside cs := by
  induction h with
  | nil => exact (Nat.zero_add _).symm
  | blank hc _ ih =>
    rw [List.cons_append, gapLength, if_pos hc, ih hend, List.length_cons]
    omega
  | @comment _ body gap hbody _ ih =>
    have hcomment : '/' :: '*' :: body ++ '*' :: '/' :: gap ++ cs =
        '/' :: '*' :: (body ++ '*' :: '/' :: (gap ++ cs)) := by simp
    have hlength : gapLength .outside ('/' :: '*' :: (body ++ '*' :: '/' :: (gap ++ cs))) =
        1 + (1 + gapLength .inside (body ++ '*' :: '/' :: (gap ++ cs))) := rfl
    have hlast : gapLength .inside ('*' :: '/' :: (gap ++ cs)) = 1 + (1 + gapLength .outside (gap ++ cs)) := rfl
    rw [hcomment, hlength, (gapLength_body rfl body).1 hbody, hlast, ih hend]
    simp only [List.length_append, List.length_cons]
    omega
  | @unclosed body hbody =>
    have hlength : gapLength .outside ('/' :: '*' :: (body ++ [])) = 1 + (1 + gapLength .inside (body ++ [])) := rfl
    rw [hend.resolve_left (by decide), List.cons_append, List.cons_append, hlength, (gapLength_body rfl body).1 hbody]
    simp only [List.length_cons, gapLength]
    omega

/-- Where there is a gap a separator stands first. -/
theorem apart {isOpen : Bool} {gap : List Char} (h : Gap isOpen gap) (hne : gap ≠ []) (cs : List Char) :
    Apart (gap ++ cs) := by
  have hslash : '/' ∈ separators := by decide
  cases h with
  | nil => exact absurd rfl hne
  | blank hc _ =>
    rintro c ⟨⟩
    simp only [isBlank, Bool.or_eq_true, decide_eq_true_eq] at hc
    simp only [separators, List.mem_cons]
    tauto
  | comment _ _ | unclosed _ =>
    rintro c ⟨⟩
    exact hslash

/-- One gap in place of another one, and none in place of none. -/
structure Swap (isOpen isOpen' : Bool) (gap gap' : List Char) : Prop where
  old : Gap isOpen gap
  new : Gap isOpen' gap'
  nil_iff : gap' = [] ↔ gap = []

theorem Swap.refl {isOpen : Bool} {gap : List Char} (h : Gap isOpen gap) : Swap isOpen isOpen gap gap :=
  ⟨h, h, .rfl⟩

end Gap

/-! ## Texts with different gaps -/

/-- Texts that do not differ, or that are the same up to where both are apart. -/
def Akin (cs cs' : List Char) : Prop :=
  cs = cs' ∨ ∃ front rest rest', Apart rest ∧ Apart rest' ∧ cs = front ++ rest ∧ cs' = front ++ rest'

namespace Akin

variable {c : Char} {cs cs' : List Char}

theorem append (text : List Char) (h : Akin cs cs') : Akin (text ++ cs) (text ++ cs') := by
  rcases h with rfl | ⟨front, rest, rest', hrest, hrest', rfl, rfl⟩
  · exact .inl rfl
  · exact .inr ⟨text ++ front, rest, rest', hrest, hrest', (List.append_assoc ..).symm, (List.append_assoc ..).symm⟩

theorem head? (h : Akin cs cs') (hc : c ∈ cs'.head?) : c ∈ cs.head? ∨ c ∈ separators := by
  rcases h with rfl | ⟨front, rest, rest', -, hrest', rfl, rfl⟩
  · exact .inl hc
  · cases front with
    | nil => exact .inr (hrest' c hc)
    | cons d front => exact .inl hc

/-- Rules do not tell akin texts apart. -/
theorem plain?_cons (h : Akin cs cs') (c : Char) : plain? g o (c :: cs') = plain? g o (c :: cs) := by
  rcases h with rfl | ⟨front, rest, rest', hrest, hrest', rfl, rfl⟩
  · rfl
  · rw [← List.cons_append, hrest'.plain?_append (List.cons_ne_nil c front), ← List.cons_append,
      hrest.plain?_append (List.cons_ne_nil c front)]

/-- A token is the same in front of akin texts. -/
theorem recognise {text : List Char} {l : Lexeme} (h : Akin cs cs') (hl : recognise g o (text ++ cs) = .ok l)
    (htext : text.length = l.length) : Lexeme.recognise g o (text ++ cs') = .ok l := by
  cases text with
  | nil => exact absurd htext l.length_pos.ne
  | cons c tail =>
    rw [List.cons_append, Lexeme.recognise] at hl ⊢
    split
    · next hquote =>
      rw [if_pos hquote] at hl
      have hquoted := (quoted_take_append hl htext.symm cs').1
      rwa [List.take_left] at hquoted
    · next hquote =>
      rw [if_neg hquote] at hl
      rwa [(h.append tail).plain?_cons]

/-- No gap starts at a token in front of akin texts if none does in front of one of them. -/
theorem gapLength_cons (h : Akin cs cs') (hstart : gapLength .outside (c :: cs) = 0) :
    gapLength .outside (c :: cs') = 0 := by
  obtain ⟨hblank, hslash⟩ := of_gapLength_eq_zero hstart
  refine gapLength_eq_zero hblank fun hc hstar => ?_
  rcases h.head? hstar with hstar | hstar
  · exact hslash hc hstar
  · exact absurd hstar (by decide)

end Akin

/-- Behind another gap texts are akin. -/
theorem Gap.Swap.akin {isOpen isOpen' : Bool} {gap gap' cs cs' : List Char} (h : Swap isOpen isOpen' gap gap')
    (hcs : Akin cs cs') : Akin (gap ++ cs) (gap' ++ cs') := by
  by_cases hne : gap = []
  · rw [hne, h.nil_iff.2 hne]
    exact hcs
  · exact .inr ⟨[], _, _, h.old.apart hne cs, h.new.apart (hne ∘ h.nil_iff.1) cs', rfl, rfl⟩

/-! ## Other gaps -/

/-- The same text with other gaps in front of its tokens, up to the first error or to the end, where a comment may be
open. -/
inductive Relaid (g : Grammar) (o : Options) : List Char → List Char → Prop
  | finish {isOpen isOpen' : Bool} {gap gap' : List Char} (hgap : Gap.Swap isOpen isOpen' gap gap') :
    Relaid g o gap gap'
  | fault {gap gap' rest : List Char} {f : Fault} (hgap : Gap.Swap false false gap gap')
    (hstart : gapLength .outside rest = 0) (hne : rest ≠ []) (hf : recognise g o rest = .error f) :
    Relaid g o (gap ++ rest) (gap' ++ rest)
  | token {gap gap' text rest rest' : List Char} {l : Lexeme} (hgap : Gap.Swap false false gap gap')
    (hstart : gapLength .outside (text ++ rest) = 0) (hl : recognise g o (text ++ rest) = .ok l)
    (htext : text.length = l.length) (later : Relaid g o rest rest') :
    Relaid g o (gap ++ (text ++ rest)) (gap' ++ (text ++ rest'))

namespace Relaid

variable {cs cs' : List Char}

/-- Every text consists of gaps and tokens, up to an error or to the end. -/
theorem refl (cs : List Char) : Relaid g o cs cs := by
  obtain ⟨isOpen, hgap, hopen⟩ := Gap.exists_take cs
  have hstart : gapLength .outside (cs.drop (gapLength .outside cs)) = 0 := gapLength_drop .outside cs
  have hcs := List.take_append_drop (gapLength .outside cs) cs
  by_cases hne : cs.drop (gapLength .outside cs) = []
  · rw [hne, List.append_nil] at hcs
    exact .finish (.refl (hcs ▸ hgap))
  · obtain rfl : isOpen = false := Bool.eq_false_iff.2 fun hisOpen => hne (hopen hisOpen)
    cases hl : recognise g o (cs.drop (gapLength .outside cs)) with
    | error f =>
      have hfault := Relaid.fault (.refl hgap) hstart hne hl
      rwa [hcs] at hfault
    | ok l =>
      have htext := List.take_append_drop l.length (cs.drop (gapLength .outside cs))
      have hlater := refl ((cs.drop (gapLength .outside cs)).drop l.length)
      have htoken := Relaid.token (.refl hgap) (by rwa [htext]) (by rwa [htext])
        (List.length_take_of_le (length_le_of_recognise hl)) hlater
      rwa [htext, hcs] at htoken
termination_by cs.length
decreasing_by
  have hpos := List.length_pos_iff.2 hne
  have := l.length_pos
  simp only [List.length_drop] at hpos ⊢
  omega

theorem akin (h : Relaid g o cs cs') : Akin cs cs' := by
  induction h with
  | finish hgap => simpa using hgap.akin (.inl (Eq.refl []))
  | fault hgap _ _ _ => exact hgap.akin (.inl rfl)
  | token hgap _ _ _ _ ih => exact hgap.akin (ih.append _)

end Relaid

/-- Where a gap ends, the cursor that has passed it stands. -/
theorem Gap.rest_skipGap {isOpen : Bool} {gap cs : List Char} (h : Gap isOpen gap) (hend : isOpen = false ∨ cs = [])
    (hstart : gapLength .outside cs = 0) {c : Cursor} (hc : c.rest = gap ++ cs) : c.skipGap.rest = cs := by
  rw [Cursor.skipGap, hc, h.gapLength_append hend, hstart, Cursor.forward, hc]
  exact List.drop_left

namespace Tokens

variable {c : Cursor} {rest : List Char}

theorem placeless_of_token {text : List Char} {l : Lexeme} (hhere : c.skipGap.rest = text ++ rest)
    (hl : recognise g o (text ++ rest) = .ok l) (htext : text.length = l.length) : ∃ next : Cursor, next.rest = rest ∧
      (ofCursor g o c).placeless = { (ofCursor g o next).placeless with
        list := l.kind.token :: (ofCursor g o next).placeless.list } := by
  have hne : text ++ rest ≠ [] := by
    intro hnil
    rw [hnil] at hl
    cases hl
  have hstep : c.step g o = .token (c.skipGap.token l.length l.kind) (c.skipGap.forward l.length) := by
    simp only [Cursor.step, hhere, if_neg hne, hl]
  refine ⟨c.skipGap.forward l.length, ?_, ?_⟩
  · rw [Cursor.forward, hhere, ← htext]
    exact List.drop_left
  · rw [ofCursor_of_token hstep]
    rfl

theorem placeless_of_fault {f : Fault} (hhere : c.skipGap.rest = rest) (hne : rest ≠ [])
    (hf : recognise g o rest = .error f) : (ofCursor g o c).placeless = ⟨[], .error ⟨f.cause, .start, []⟩⟩ := by
  have hstep : c.step g o = .fault (c.skipGap.fault f) := by
    simp only [Cursor.step, hhere, if_neg hne, hf]
  rw [ofCursor_of_fault hstep]
  rfl

theorem placeless_of_finish (hhere : c.skipGap.rest = []) :
    (ofCursor g o c).placeless = ⟨[], .ok TokenKind.finish.token⟩ := by
  have hstep : c.step g o = .finish (c.skipGap.token 0 .finish) := by
    rw [Cursor.step, if_pos hhere]
  rw [ofCursor_of_finish hstep]
  rfl

end Tokens

/-- The tokens do not depend on the gaps, except for their places. -/
theorem Relaid.placeless {cs cs' : List Char} (h : Relaid g o cs cs') {c c' : Cursor} (hc : c.rest = cs)
    (hc' : c'.rest = cs') : (Tokens.ofCursor g o c').placeless = (Tokens.ofCursor g o c).placeless := by
  induction h generalizing c c' with
  | finish hgap =>
    have hhere : c.skipGap.rest = [] := hgap.old.rest_skipGap (.inr rfl) rfl (by rw [hc, List.append_nil])
    have hhere' : c'.skipGap.rest = [] := hgap.new.rest_skipGap (.inr rfl) rfl (by rw [hc', List.append_nil])
    rw [Tokens.placeless_of_finish hhere, Tokens.placeless_of_finish hhere']
  | fault hgap hstart hne hf =>
    have hhere := hgap.old.rest_skipGap (.inl rfl) hstart hc
    have hhere' := hgap.new.rest_skipGap (.inl rfl) hstart hc'
    rw [Tokens.placeless_of_fault hhere hne hf, Tokens.placeless_of_fault hhere' hne hf]
  | @token gap gap' text rest rest' l hgap hstart hl htext later ih =>
    have hstart' : gapLength .outside (text ++ rest') = 0 := by
      cases text with
      | nil => exact absurd htext l.length_pos.ne
      | cons d tail => exact (later.akin.append tail).gapLength_cons hstart
    have hl' : recognise g o (text ++ rest') = .ok l := later.akin.recognise hl htext
    have hhere : c.skipGap.rest = text ++ rest := hgap.old.rest_skipGap (.inl rfl) hstart hc
    have hhere' : c'.skipGap.rest = text ++ rest' := hgap.new.rest_skipGap (.inl rfl) hstart' hc'
    obtain ⟨next, hnext, htokens⟩ := Tokens.placeless_of_token hhere hl htext
    obtain ⟨next', hnext', htokens'⟩ := Tokens.placeless_of_token hhere' hl' htext
    rw [htokens, htokens', ih hnext hnext']

/-- Gaps do not matter: with others in their place a code is the same program, or there is the same cause of an
error. -/
theorem Program.parse_relaid {code code' : String} (h : Relaid g o code.toList code'.toList) :
    (Program.parse g o code').mapError ParseError.cause = (Program.parse g o code).mapError ParseError.cause :=
  parse_eq_of_placeless (h.placeless rfl rfl)

/-- A quote in a comment in front of a slash. -/
theorem Program.parse_relaid_comment :
    Relaid .standard .standard "\"a\" / \"a\"".toList "\"a\"/*\"*//\n\"a\"".toList ∧
      (Program.parse .standard .standard "\"a\"/*\"*//\n\"a\"").mapError ParseError.cause =
        (Program.parse .standard .standard "\"a\" / \"a\"").mapError ParseError.cause := by
  have hencode : Text.Quoted.encode ['a'] = ['"', 'a', '"'] := by decide +kernel
  have hslash : recognise .standard .standard (['/'] ++ [' ', '"', 'a', '"']) =
      .ok ⟨1, .operator "/", Nat.one_pos⟩ := by rfl
  have hempty : Gap.Swap false false [] [] := .refl .nil
  have hquote : ¬['*', '/'] <:+: ['"'] := by decide
  have hcomment : Gap.Swap false false [' '] ['/', '*', '"', '*', '/'] :=
    ⟨.blank rfl .nil, .comment hquote .nil, by decide⟩
  have hline : Gap.Swap false false [' '] ['\n'] := ⟨.blank rfl .nil, .blank rfl .nil, by decide⟩
  have hstring {gap gap' rest rest' : List Char} (hgap : Gap.Swap false false gap gap')
      (later : Relaid .standard .standard rest rest') :
      Relaid .standard .standard (gap ++ (['"', 'a', '"'] ++ rest)) (gap' ++ (['"', 'a', '"'] ++ rest')) := by
    obtain ⟨hpos, hl⟩ := recognise_encode .standard .standard ['a'] rest
    rw [← hencode]
    exact .token hgap rfl hl rfl later
  have hcode : Relaid .standard .standard "\"a\" / \"a\"".toList "\"a\"/*\"*//\n\"a\"".toList :=
    hstring hempty (.token hcomment rfl hslash rfl (hstring hline (.finish hempty)))
  exact ⟨hcode, parse_relaid hcode⟩

end Reckon

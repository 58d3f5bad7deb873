import Mathlib.Data.List.Induction
import Reckon.Proofs.Evaluation.Variables
import Reckon.Proofs.Rendering.Widening

/-!
# Dotted names

With members, the walk over a program takes a dotted name from a variable on over the fields that are taken of it, and
completes it at any other step. In the tree of a code these are the variables with all fields that are taken of them
(`Expr.chains`): the walk over the program of a tree completes their dotted names, from left to right, unless the tree
is such a chain itself, whose name may still grow (`Expr.scan_program`). Without members the walk finds the variables
alone, and these are what stands in front of the first dots (`Expr.names_program`), since no name has a dot in it
(`Program.isVariable_of_parse`). Both together are `Program.symbols_of_parse`.
-/

namespace Reckon

variable {g : Grammar} {o : Options}

/-! ## Chains -/

/-- A variable and the fields that are taken of it, one of the other. -/
structure Chain where
  /-- The variable. -/
  root : String
  /-- The fields. -/
  fields : List String
  deriving DecidableEq, Repr

namespace Chain

/-- The dotted name. -/
def text (c : Chain) : String :=
  ".".intercalate (c.root :: c.fields)

/-- One more field is taken. -/
def extend (c : Chain) (field : String) : Chain :=
  ⟨c.root, c.fields ++ [field]⟩

theorem text_extend (c : Chain) (field : String) : (c.extend field).text = c.text ++ "." ++ field := by
  have happend : ".".intercalate ((c.root :: c.fields) ++ [field]) = c.text ++ "." ++ ".".intercalate [field] :=
    String.intercalate_append_of_ne_nil (List.cons_ne_nil _ _) (List.cons_ne_nil _ _)
  rwa [String.intercalate_singleton] at happend

end Chain

/-- What stands in front of the first dot. -/
def dottedRoot (text : String) : String :=
  String.ofList (text.toList.takeWhile (· ≠ '.'))

theorem dottedRoot_of_notMem {text : String} (h : '.' ∉ text.toList) : dottedRoot text = text := by
  have htext : text.toList.takeWhile (· ≠ '.') = text.toList :=
    List.takeWhile_eq_self_iff.2 fun a ha => decide_eq_true fun hdot => h (hdot ▸ ha)
  rw [dottedRoot, htext, String.ofList_toList]

/-- Behind a name without dots, the fields start at the first dot. -/
theorem Chain.dottedRoot_text {c : Chain} (h : '.' ∉ c.root.toList) : dottedRoot c.text = c.root := by
  have hroot : ∀ a ∈ c.root.toList, decide (a ≠ '.') = true :=
    fun a ha => decide_eq_true fun hdot => h (hdot ▸ ha)
  have htext : c.text.toList.takeWhile (· ≠ '.') = c.root.toList := by
    rw [Chain.text]
    cases c.fields with
    | nil => rw [String.intercalate_singleton, List.takeWhile_eq_self_iff.2 hroot]
    | cons field fields =>
      rw [String.intercalate_cons_cons, String.append_assoc, String.toList_append, String.toList_append,
        List.takeWhile_append_of_pos hroot]
      exact List.append_nil _
  rw [dottedRoot, htext, String.ofList_toList]

namespace Expr

/-- The chain that an expression is. -/
def chain? : Expr → Option Chain
  | .name n => some ⟨n, []⟩
  | .member x field => x.chain?.map (·.extend field)
  | _ => none

mutual

/-- The variables of an expression, from left to right, each with all fields that are taken of it. -/
def chains : Expr → List Chain
  | .number _ | .string _ => []
  | .name n => [⟨n, []⟩]
  | .unary _ x => x.chains
  | .binary _ x y => x.chains ++ y.chains
  | .choice c x y => c.chains ++ x.chains ++ y.chains
  | .call f args => f.chains ++ allChains args
  | .member x field =>
    match x.chain? with
    | some c => [c.extend field]
    | none => x.chains

/-- The variables of expressions with their fields. -/
def allChains : List Expr → List Chain
  | [] => []
  | x :: rest => x.chains ++ allChains rest

end

theorem chains_of_chain? {e : Expr} {c : Chain} (h : e.chain? = some c) : e.chains = [c] := by
  cases e with
  | name n =>
    cases h
    rfl
  | member x field =>
    obtain ⟨c', hc', rfl⟩ := Option.map_eq_some_iff.1 h
    rw [chains, hc']
  | _ => cases h

end Expr

/-! ## Walks -/

namespace SymbolScan

variable {s : SymbolScan} {cs : List Chain}

/-- With the pending name completed, the walk has found the dotted names of these chains. -/
def Found (s : SymbolScan) (cs : List Chain) : Prop :=
  s.flush = ⟨(cs.map Chain.text).eraseDups, none⟩

theorem Found.flush (h : s.Found cs) : s.flush.Found cs := by
  rw [Found, h, flush_none]

theorem found_pending (cs : List Chain) (c : Chain) :
    Found ⟨(cs.map Chain.text).eraseDups, some c.text⟩ (cs ++ [c]) := by
  rw [Found, List.map_append, List.map_singleton, ← record_eraseDups]
  rfl

theorem pending_flush (s : SymbolScan) : s.flush.pending = none := by
  rw [SymbolScan.flush]
  split
  · rfl
  · assumption

end SymbolScan

namespace Expr

/-- The name of a chain may still grow behind it. -/
theorem scan_of_chain? {s : SymbolScan} {cs : List Chain} (hs : s.Found cs) : (e : Expr) → ∀ {c : Chain},
    e.chain? = some c → Program.scan true s e.program = ⟨(cs.map Chain.text).eraseDups, some c.text⟩
  | .name n, _, h => by
    cases h
    rw [program, Program.scan, Program.scan, Program.scanStep, SymbolScan.load, if_pos rfl, hs, Chain.text,
      String.intercalate_singleton]
  | .member x field, _, h => by
    obtain ⟨c, hc, rfl⟩ := Option.map_eq_some_iff.1 h
    rw [program, Program.scan_append, scan_of_chain? hs x hc, Chain.text_extend]
    rfl

mutual

/-- The walk over an expression finds its chains. Behind an expression that is no chain, no name can grow. -/
theorem scan_program : (e : Expr) → ∀ {s : SymbolScan} {cs : List Chain}, s.Found cs →
    (Program.scan true s e.program).Found (cs ++ e.chains) ∧
      (e.chain? = none → (Program.scan true s e.program).pending = none)
  | .number _, s, cs, hs | .string _, s, cs, hs => by
    rw [chains, List.append_nil]
    exact ⟨hs.flush, fun _ => s.pending_flush⟩
  | .name n, _, cs, hs => by
    rw [scan_of_chain? hs (.name n) rfl]
    exact ⟨SymbolScan.found_pending cs ⟨n, []⟩, nofun⟩
  | .unary _ x, _, _, hs => by
    rw [program, Program.scan_append, chains]
    exact ⟨(scan_program x hs).1.flush, fun _ => SymbolScan.pending_flush _⟩
  | .binary op x y, s, cs, hs => by
    have hx := (scan_program x hs).1
    rw [program, Program.scan_append, Program.scan_append, chains, ← List.append_assoc]
    refine ⟨SymbolScan.Found.flush ?_, fun _ => SymbolScan.pending_flush _⟩
    split
    · exact (scan_program y hx.flush).1.flush
    · exact (scan_program y hx).1
  | .choice c x y, _, _, hs => by
    have hc := (scan_program c hs).1
    have hx := (scan_program x hc.flush).1.flush
    have hy := (scan_program y hx.flush).1.flush
    rw [program, Program.scan_append, chains, ← List.append_assoc, ← List.append_assoc]
    exact ⟨hy.flush, fun _ => SymbolScan.pending_flush _⟩
  | .call f args, _, _, hs => by
    have hargs := scan_programs args (scan_program f hs).1
    rw [program, Program.scan_append, Program.scan_append, chains, ← List.append_assoc]
    exact ⟨hargs.flush, fun _ => SymbolScan.pending_flush _⟩
  | .member x field, s, cs, hs => by
    cases hx : x.chain? with
    | some c =>
      have hmember : (Expr.member x field).chain? = some (c.extend field) := by rw [chain?, hx]; rfl
      rw [scan_of_chain? hs (.member x field) hmember, chains_of_chain? hmember, hmember]
      exact ⟨SymbolScan.found_pending cs _, nofun⟩
    | none =>
      obtain ⟨hfound, hnone⟩ := scan_program x hs
      -- no name is pending, so there is none that the field could be added to
      have hstep : Program.scan true s (Expr.member x field).program = Program.scan true s x.program := by
        rw [program, Program.scan_append, Program.scan, Program.scan, Program.scanStep, SymbolScan.member, hnone hx,
          Option.map_none, ← hnone hx]
      rw [hstep, chains, hx]
      exact ⟨hfound, fun _ => hnone hx⟩

/-- The walk over expressions finds their chains. -/
theorem scan_programs : (es : List Expr) → ∀ {s : SymbolScan} {cs : List Chain}, s.Found cs →
    (Program.scan true s (programs es)).Found (cs ++ allChains es)
  | [], _, _, hs => by
    rw [programs, Program.scan, allChains, List.append_nil]
    exact hs
  | x :: rest, _, _, hs => by
    rw [programs, Program.scan_append, allChains, ← List.append_assoc]
    exact scan_programs rest (scan_program x hs).1

end

/-- With members, the symbols of an expression are the dotted names of its chains, each where it occurs first. -/
theorem symbols_program (e : Expr) : e.program.symbols true = (e.chains.map Chain.text).eraseDups := by
  have hfound : (Program.scan true ⟨[], none⟩ e.program).Found ([] ++ e.chains) := scan_program e (by rfl) |>.1
  rw [Program.symbols, hfound, List.nil_append]

/-! ## Names -/

mutual

/-- The names of the program of an expression are the roots of its chains. -/
theorem names_program : (e : Expr) → Program.names e.program = e.chains.map Chain.root
  | .number _ | .string _ | .name _ => rfl
  | .unary _ x => by
    rw [program, Program.names_append, names_program x, chains]
    exact List.append_nil _
  | .binary op x y => by
    have hy : Program.names (if isShortCircuit op then [.suspend y.program] else y.program) =
        y.chains.map Chain.root := by
      split
      · exact (List.append_nil _).trans (names_program y)
      · exact names_program y
    rw [program, Program.names_append, Program.names_append, names_program x, hy, chains, List.map_append]
    exact List.append_nil _
  | .choice c x y => by
    rw [program, Program.names_append, names_program c, chains, List.map_append, List.map_append, List.append_assoc,
      ← names_program x, ← names_program y]
    simp [Program.names, Instruction.names]
  | .call f args => by
    rw [program, Program.names_append, Program.names_append, names_program f, names_programs args, chains,
      List.map_append]
    exact List.append_nil _
  | .member x field => by
    have hx : Program.names (Expr.member x field).program = x.chains.map Chain.root := by
      rw [program, Program.names_append, names_program x]
      exact List.append_nil _
    rw [hx, chains]
    cases hc : x.chain? with
    | some c => rw [chains_of_chain? hc]; rfl
    | none => rfl

theorem names_programs : (es : List Expr) → Program.names (programs es) = (allChains es).map Chain.root
  | [] => rfl
  | x :: rest => by
    rw [programs, Program.names_append, names_program x, names_programs rest, allChains, List.map_append]

end

end Expr

/-- The names of a program that has been read are variables. -/
theorem Program.isVariable_of_parse {code : String} {p : Program} (h : Program.parse g o code = .ok p) {n : String}
    (hn : n ∈ Program.names p) : IsVariable g o n :=
  Program.printable_of_parse h _ ((Program.mem_names_iff p).1 hn)

theorem IsName.dot_notMem {cs : List Char} (h : IsName cs) : '.' ∉ cs := by
  have hword {w : List Char} (hw : IsWord w) : '.' ∉ w := fun hdot => absurd (hw.2 _ hdot) (by decide)
  rcases h with hw | ⟨c, w, rfl, hc, hw⟩
  · exact hword hw
  · rw [List.mem_cons, not_or]
    refine ⟨?_, hword hw⟩
    rcases hc with rfl | rfl <;> decide

/-! ## Different names -/

/-- What is recorded stays different. -/
theorem SymbolScan.nodup_record {names : List String} (h : names.Nodup) (name : String) :
    (SymbolScan.record names name).Nodup := by
  rw [SymbolScan.record]
  split
  · exact h
  · next hnew =>
    rw [List.contains_iff_mem] at hnew
    exact List.nodup_append_comm.1 (List.nodup_cons.2 ⟨hnew, h⟩)

theorem SymbolScan.nodup_eraseDups (names : List String) : names.eraseDups.Nodup := by
  induction names using List.reverseRecOn with
  | nil => exact List.nodup_nil
  | append_singleton names name ih =>
    rw [← SymbolScan.record_eraseDups]
    exact SymbolScan.nodup_record ih name

/-- A name that has been recorded is not recorded again. -/
theorem SymbolScan.eraseDups_append_of_subset {xs ys : List String} (h : ys ⊆ xs) :
    (xs ++ ys).eraseDups = xs.eraseDups := by
  have hnone : ys.removeAll xs = [] := by
    rw [List.removeAll, List.filter_eq_nil_iff]
    exact fun y hy => by simpa using h hy
  rw [List.eraseDups_append, hnone, List.eraseDups_nil, List.append_nil]

/-- The different names of two lists depend on the different names of each list alone. -/
theorem SymbolScan.eraseDups_append_congr {xs xs' ys ys' : List String} (hx : xs.eraseDups = xs'.eraseDups)
    (hy : ys.eraseDups = ys'.eraseDups) : (xs ++ ys).eraseDups = (xs' ++ ys').eraseDups := by
  have hleft : (xs ++ ys).eraseDups = (xs' ++ ys).eraseDups := by
    clear hy
    induction ys using List.reverseRecOn with
    | nil => rwa [List.append_nil, List.append_nil]
    | append_singleton ys y ih =>
      rw [← List.append_assoc, ← List.append_assoc, ← SymbolScan.record_eraseDups, ih, SymbolScan.record_eraseDups]
  have hright (zs : List String) : (xs' ++ zs.eraseDups).eraseDups = (xs' ++ zs).eraseDups := by
    induction zs using List.reverseRecOn with
    | nil => rfl
    | append_singleton zs z ih =>
      rw [← SymbolScan.record_eraseDups, SymbolScan.record, ← List.append_assoc]
      split
      · next h =>
        have hz : [z] ⊆ xs' ++ zs := by
          simpa using .inr (List.mem_eraseDups.1 (List.contains_iff_mem.1 h))
        rw [ih, SymbolScan.eraseDups_append_of_subset hz]
      · rw [← List.append_assoc, ← SymbolScan.record_eraseDups, ih, SymbolScan.record_eraseDups]
  rw [hleft, ← hright ys, hy, hright ys']

/-- The different names among those that others are replaced by depend on the different names alone. -/
theorem SymbolScan.eraseDups_flatMap {f f' : String → List String} (h : ∀ n, (f n).eraseDups = (f' n).eraseDups)
    (names : List String) : (names.eraseDups.flatMap f).eraseDups = (names.flatMap f').eraseDups := by
  induction names using List.reverseRecOn with
  | nil => rfl
  | append_singleton names n ih =>
    rw [← SymbolScan.record_eraseDups, SymbolScan.record, List.flatMap_append, List.flatMap_singleton]
    split
    · next hn =>
      have hmem : n ∈ names := List.mem_eraseDups.1 (List.contains_iff_mem.1 hn)
      rw [ih, SymbolScan.eraseDups_append_of_subset fun m hm => List.mem_flatMap_of_mem hmem hm]
    · rw [List.flatMap_append, List.flatMap_singleton]
      exact SymbolScan.eraseDups_append_congr ih (h n)

/-- To leave names out before others are taken away makes no difference to the different names that are left. -/
theorem SymbolScan.filter_eraseDups (q : String → Bool) (names : List String) :
    names.eraseDups.filter q = (names.filter q).eraseDups := by
  induction names using List.reverseRecOn with
  | nil => rfl
  | append_singleton names n ih =>
    rw [← SymbolScan.record_eraseDups, SymbolScan.record, List.filter_append]
    cases hn : q n with
    | false =>
      rw [List.filter_cons_of_neg (by simp [hn]), List.filter_nil, List.append_nil, ← ih]
      split
      · rfl
      · rw [List.filter_append, List.filter_cons_of_neg (by simp [hn]), List.filter_nil, List.append_nil]
    | true =>
      have hmem : names.eraseDups.contains n = (names.filter q).eraseDups.contains n := by
        simp [hn]
      rw [List.filter_cons_of_pos hn, List.filter_nil, ← SymbolScan.record_eraseDups, SymbolScan.record, ← hmem, ← ih]
      split
      · rfl
      · rw [List.filter_append, List.filter_cons_of_pos hn, List.filter_nil]

/-- To leave names out before a function is applied makes no difference to the different values. -/
theorem SymbolScan.eraseDups_map_eraseDups (f : String → String) (names : List String) :
    (names.eraseDups.map f).eraseDups = (names.map f).eraseDups := by
  rw [List.map_eq_flatMap, List.map_eq_flatMap]
  exact SymbolScan.eraseDups_flatMap (fun _ => rfl) names

/-! ## Programs -/

/-- Without members, the symbols of a program that has been read are what stands in front of the first dots of those
with members. -/
theorem Program.symbols_eq_roots {code : String} {p : Program} (h : Program.parse g o code = .ok p) :
    p.symbols false = ((p.symbols true).map dottedRoot).eraseDups := by
  obtain ⟨e, -, rfl⟩ := Program.parse_eq_ok_iff.1 h
  have hroots : ∀ c ∈ e.chains, dottedRoot c.text = c.root := by
    intro c hc
    have hname : c.root ∈ Program.names e.program := e.names_program ▸ List.mem_map_of_mem hc
    exact Chain.dottedRoot_text (Program.isVariable_of_parse h hname).name.dot_notMem
  rw [e.symbols_program, SymbolScan.eraseDups_map_eraseDups, Program.symbols_eq_eraseDups, e.names_program,
    List.map_map]
  exact congrArg List.eraseDups (List.map_congr_left fun c hc => (hroots c hc).symm)

/-- With members, the symbols of a program that has been read are the dotted names of the chains of its tree, each of
them once, where it occurs first. Without members, they are the roots of these names, each of them once. -/
theorem Program.symbols_of_parse {code : String} {p : Program} (h : Program.parse g o code = .ok p) :
    ∃ e : Expr, Expr.parse g o code = .ok e ∧ e.program = p ∧
      p.symbols true = (e.chains.map Chain.text).eraseDups ∧ (p.symbols true).Nodup ∧
      p.symbols false = ((p.symbols true).map dottedRoot).eraseDups := by
  have hroots := Program.symbols_eq_roots h
  obtain ⟨e, he, rfl⟩ := Program.parse_eq_ok_iff.1 h
  exact ⟨e, he, rfl, e.symbols_program, e.symbols_program ▸ SymbolScan.nodup_eraseDups _, hroots⟩

/-- In `a.b.c + (f(a.b, a)).d` the field `d` is taken of a call, so it is in no chain. -/
theorem Program.symbols_of_parse_sum :
    let e : Expr := .binary "+" (.member (.member (.name "a") "b") "c")
      (.member (.call (.name "f") [.member (.name "a") "b", .name "a"]) "d")
    Program.parse Grammar.standard .standard "a.b.c + (f(a.b, a)).d" = .ok e.program ∧
      e.program.symbols true = ["a.b.c", "f", "a.b", "a"] ∧ e.program.symbols false = ["a", "f"] := by
  intro e
  have hname : ∀ n ∈ ["a", "b", "c", "d", "f"], (Expr.name n).Printable Grammar.standard .standard false := by
    have hwords : ∀ n ∈ ["a", "b", "c", "d", "f"], IsWord n.toList ∧ Grammar.standard.isOperator n = false ∧
        Grammar.standard.constant? n = none := by decide
    exact fun n hn => Expr.printable_name (hwords n hn).1 (hwords n hn).2.1 (hwords n hn).2.2
  have hmember : ∀ n ∈ ["a", "b", "c", "d", "f"], ∀ x : Expr, x.Printable Grammar.standard .standard true →
      (Expr.member x n).Printable Grammar.standard .standard false :=
    fun n hn x hx => ⟨by decide, by decide, .inl (hname n hn), hx⟩
  have hdotted {x : Expr} (hx : x.Printable Grammar.standard .standard false) :
      x.Printable Grammar.standard .standard true :=
    x.printableWith_canSpell.1 ((x.printableWith_canSpell.2 hx).mono true)
  have ha := hname "a" (by decide)
  have hab := hmember "b" (by decide) _ (hdotted ha)
  have hcall : (Expr.call (.name "f") [.member (.name "a") "b", .name "a"]).Printable Grammar.standard .standard true :=
    ⟨hname "f" (by decide), hab, ha, trivial⟩
  have he : e.Printable Grammar.standard .standard false :=
    ⟨⟨by decide, .inl (by decide)⟩, .inr ⟨.sum, by decide⟩, hmember "c" (by decide) _ (hdotted hab),
      hmember "d" (by decide) _ hcall⟩
  have hparse : Program.parse Grammar.standard .standard "a.b.c + (f(a.b, a)).d" = .ok e.program := by
    have hread := Program.parse_render_program Grammar.isReadable_standard he rfl
    have hrender : e.program.render = "a.b.c + (f(a.b, a)).d" := by decide +kernel
    rwa [hrender] at hread
  have hmembers : e.program.symbols true = ["a.b.c", "f", "a.b", "a"] := by decide
  obtain ⟨_, _, _, _, _, hroots⟩ := Program.symbols_of_parse hparse
  refine ⟨hparse, hmembers, hroots.trans ?_⟩
  rw [hmembers]
  decide +kernel

end Reckon

import Reckon.Proofs.Parsing.Viability

/-!
# The parser is sound

Reading all tokens of a code comes to one of the ends that reading has (`Reader.Outcome.whole`). So whatever the parser
returns is a derivation of all tokens by the rules of the grammar (`Derivation.derives_of_ofTokens`), and where it fails
an error ends the tokens, or the tokens in front of the one to blame start a derivation
(`Derivation.blames_of_ofTokens`).
-/

namespace Reckon

namespace Reader

/-- Nothing must be left. -/
def finish {α : Type} (a : α) : Reader α
  | _, [] => .ok (a, [])
  | _, t :: _ => .error (.blaming t (.expected .finish))

/-- The derivation of the tokens as a whole. -/
def whole (s : TokenSource) : Reader (Derivation .expression) := fun ending ts => do
  (s.before ending).advance ts
  (do finish (← goal s (.derive .expression)) : Reader _) ending ts

variable {s : TokenSource} {ending : Except ParseError Token} {ts : List Token}

theorem whole_eq : whole s ending ts = (Derivation.ofTokens (s.before ending) ts).map fun d => (d, []) := by
  rw [Derivation.ofTokens]
  refine (map_bind_congr fun _ => map_bind_eq ?_).symm
  rintro ⟨⟨x, rest⟩, h⟩
  cases rest <;> rfl

namespace Outcome

theorem finish {α : Type} {Q : α → List TokenKind → Prop} {a : α} (ha : Q a [])
    (hready : (s.before ending).advance ts = .ok ()) : Outcome s (finish a) Q ending ts := by
  cases ts with
  | nil =>
    refine .passes [] rfl hready (fun ending' rest hshows => ?_) ha
    rw [List.head?_eq_none_iff.1 hshows.head]
    rfl
  | cons t ts =>
    refine .fail (fun _ => .expected .finish) hready (fun ending' rest hshows => ?_) (fun _ => rfl) ⟨a, _, ha⟩
    obtain ⟨rest, rfl⟩ := List.head?_eq_some_iff.1 hshows.head
    rfl

theorem whole (s : TokenSource) (ending : Except ParseError Token) (ts : List Token) :
    Outcome s (whole s) (fun d u => d.Derives s.grammar s.options u) ending ts := by
  cases hadvance : (s.before ending).advance ts with
  | error e =>
    refine .faults (TokenSource.ending_of_advance hadvance) ?_
    rw [Reader.whole, hadvance]
    rfl
  | ok _ =>
    have hread : Outcome s (do Reader.finish (← goal s (.derive .expression)))
        (fun d u => d.Derives s.grammar s.options u) ending ts := by
      refine (Goal.answered (.derive .expression) ts trivial hadvance).bind (fun d u hd => ?_)
        fun d u rest hd _ hready => ?_
      · exact ⟨d, [], by rwa [List.append_nil]⟩
      · exact .finish (by rwa [List.append_nil]) hready
    refine behind [] hadvance hread fun ending' ts' hshows => ?_
    rw [List.nil_append, Reader.whole, hshows.advance]
    rfl

end Outcome

end Reader

namespace Derivation

variable {s : TokenSource} {ts : List Token} {d : Derivation .expression} {e : ParseError}

/-- A derivation that the parser returns derives all the tokens, and the tokens end without an error. -/
theorem derives_of_ofTokens (h : ofTokens s ts = .ok d) :
    (∃ e, s.ending = .ok e) ∧ d.Derives s.grammar s.options (ts.map Token.kind) := by
  have hwhole : Reader.whole s s.ending ts = .ok (d, []) := by
    rw [Reader.whole_eq]
    exact congrArg (Except.map _) h
  cases Reader.Outcome.whole s s.ending ts with
  | passes us hts hready hpasses hd =>
    rw [hts, hpasses s.ending _ ⟨rfl, hready⟩] at hwhole
    cases hwhole
    rw [List.append_nil] at hts
    exact ⟨TokenSource.exists_look hready, hts ▸ hd⟩
  | blames _ _ _ herror =>
    rw [herror] at hwhole
    cases hwhole
  | faults _ herror =>
    rw [herror] at hwhole
    cases hwhole

/-- An error of the parser is the one that ends the tokens, or it blames a token behind tokens that start a derivation;
and reading fails there. -/
theorem blames_of_ofTokens (h : ofTokens s ts = .error e) : s.ending = .error e ∨ ∃ us rest t,
    ts = us ++ rest ∧ s.look rest = .ok t ∧ e = .blaming t e.cause ∧ e.cause.isLexical = false ∧
      (∃ (d : Derivation .expression) (ks : List TokenKind),
        d.Derives s.grammar s.options (us.map Token.kind ++ ks)) ∧
      Reader.Fails s (Reader.whole s) us rest.head? := by
  have hwhole : Reader.whole s s.ending ts = .error e := by
    rw [Reader.whole_eq]
    exact congrArg (Except.map _) h
  cases Reader.Outcome.whole s s.ending ts with
  | passes us hts hready hpasses _ =>
    rw [hts, hpasses s.ending _ ⟨rfl, hready⟩] at hwhole
    cases hwhole
  | @blames us rest t cause hts hlook herror hcause hfails hcomplete =>
    rw [herror] at hwhole
    cases hwhole
    exact .inr ⟨us, rest, t, hts, hlook, rfl, hcause, hcomplete, hfails⟩
  | faults hending herror =>
    rw [herror] at hwhole
    cases hwhole
    exact .inl hending

end Derivation

end Reckon

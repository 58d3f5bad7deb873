import Mathlib.Order.Bounds.Defs
import Reckon.Proofs.Parsing.Blame

/-!
# Places of offsets

The place behind a part of a code has a line for each newline in it and a column for each character behind the last of
them (`Location.start_afterText`), and with more characters it comes later (`Location.Before.afterText`). The place of
an offset is the one behind the characters that lie in front of the offset as a whole (`Location.seek_spec`). So an
offset has the place of the last character boundary up to it, and different boundaries have different places, in the
order of the code (`Location.ofOffset_faithful`). Lines up to the greatest of 32 bits are reported as they are
(`Location.saturated_ofOffset`).
-/

namespace Reckon

variable {code : String}

/-! ## Character boundaries -/

/-- The offsets between two characters of a code are the lengths of its first parts. -/
theorem isValid_iff_exists_append {n : Nat} : String.Pos.Raw.IsValid code ⟨n⟩ ↔
    ∃ before after, code.toList = before ++ after ∧ utf8Length before = n := by
  constructor
  · intro h
    obtain ⟨s, t, hcode, hs⟩ := String.Pos.Raw.isValid_iff_exists_append.1 h
    have hn : n = s.utf8ByteSize := congrArg String.Pos.Raw.byteIdx hs
    refine ⟨s.toList, t.toList, ?_, ?_⟩
    · rw [hcode, String.toList_append]
    · rw [hn, ← utf8ByteSize_ofList_eq, String.ofList_toList]
  · rintro ⟨before, after, hcode, rfl⟩
    exact isValid_of_append hcode

/-- Of two first parts of a code the longer one starts with the other. -/
theorem exists_eq_append_of_utf8Length_lt {cs xs xs' ys ys' : List Char} (hx : cs = xs ++ xs') (hy : cs = ys ++ ys')
    (h : utf8Length xs < utf8Length ys) : ∃ zs, zs ≠ [] ∧ ys = xs ++ zs := by
  rcases List.append_eq_append_iff.1 (hx.symm.trans hy) with ⟨zs, rfl, -⟩ | ⟨zs, rfl, -⟩
  · refine ⟨zs, ?_, rfl⟩
    rintro rfl
    simp at h
  · rw [utf8Length_append] at h
    omega

namespace Location

/-! ## Lines and columns -/

/-- One place comes before another: by its line, or in one line by its column. -/
def Before (l l' : Location) : Prop :=
  l.line < l'.line ∨ l.line = l'.line ∧ l.column < l'.column

theorem Before.trans {a b c : Location} (hab : a.Before b) (hbc : b.Before c) : a.Before c := by
  unfold Before at *
  omega

theorem before_after (l : Location) (c : Char) : l.Before (l.after c) := by
  unfold after
  split
  · exact .inl (Nat.lt_succ_self _)
  · exact .inr ⟨rfl, Nat.lt_succ_self _⟩

/-- Behind more characters is a later place. -/
theorem before_afterText (l : Location) {cs : List Char} (h : cs ≠ []) : l.Before (l.afterText cs) := by
  induction cs generalizing l with
  | nil => exact absurd rfl h
  | cons c cs ih =>
    rw [afterText_cons]
    by_cases hcs : cs = []
    · subst hcs
      exact l.before_after c
    · exact (l.before_after c).trans (ih (l.after c) hcs)

/-- The number of newlines gives the line, and the number of characters behind the last newline the column. -/
theorem start_afterText (cs : List Char) : start.afterText cs =
    ⟨utf8Length cs, cs.count '\n' + 1, (cs.reverse.takeWhile (· ≠ '\n')).length + 1⟩ := by
  induction cs using List.reverseRecOn with
  | nil => rfl
  | append_singleton cs c ih =>
    have hlength : utf8Length (cs ++ [c]) = utf8Length cs + c.utf8Size := by
      rw [utf8Length_append]
      simp [utf8Length]
    rw [afterText_append, ih, afterText_cons, afterText_nil, after, hlength, List.count_append]
    by_cases hc : c = '\n'
    · simp [hc]
    · simp [hc]

/-! ## Seeking -/

/-- The walk to an offset passes the characters that end at the offset or before it. -/
theorem seek_spec {target : Nat} {l : Location} (cs : List Char) (h : l.offset ≤ target) : ∃ before after,
    cs = before ++ after ∧ seek target l cs = l.afterText before ∧ l.offset + utf8Length before ≤ target ∧
      ∀ c ∈ after.head?, target < l.offset + utf8Length before + c.utf8Size := by
  induction cs generalizing l with
  | nil => exact ⟨[], [], rfl, rfl, h, by simp⟩
  | cons c cs ih =>
    by_cases hc : l.offset + c.utf8Size ≤ target
    · obtain ⟨before, after, rfl, hseek, hle, hlt⟩ := ih (l := l.after c) (by rwa [offset_after])
      have hlength : utf8Length (c :: before) = c.utf8Size + utf8Length before := List.sum_cons
      rw [offset_after] at hle hlt
      refine ⟨c :: before, after, rfl, ?_, by omega, fun d hd => ?_⟩
      · rw [seek, if_pos hc, hseek, afterText_cons]
      · have := hlt d hd
        omega
    · refine ⟨[], c :: cs, rfl, by rw [seek, if_neg hc, afterText_nil], h, ?_⟩
      rintro _ ⟨⟩
      exact Nat.not_le.1 hc

/-- The place of an offset is that of the last character boundary up to it. -/
theorem exists_isGreatest (code : String) (n : Nat) : ∃ k, (ofOffset code n).offset = k ∧
    IsGreatest {k | String.Pos.Raw.IsValid code ⟨k⟩ ∧ k ≤ min n code.utf8ByteSize} k ∧
      ofOffset code n = ofOffset code k := by
  obtain ⟨before, after, hcode, hseek, hle, hlt⟩ := seek_spec (l := start) code.toList (Nat.zero_le n)
  have hplace : ofOffset code n = ofOffset code (utf8Length before) := by
    rw [ofOffset_utf8Length hcode, ← hseek, ofOffset]
  have hsize : ∀ {k}, String.Pos.Raw.IsValid code ⟨k⟩ → k ≤ code.utf8ByteSize := fun h => h.le_rawEndPos
  have hzero : start.offset = 0 := rfl
  rw [hzero, Nat.zero_add] at hle hlt
  refine ⟨utf8Length before, ?_, ⟨⟨isValid_of_append hcode, ?_⟩, ?_⟩, hplace⟩
  · rw [hplace, ofOffset_utf8Length hcode, offset_afterText, hzero, Nat.zero_add]
  · exact Nat.le_min.2 ⟨hle, hsize (isValid_of_append hcode)⟩
  · -- a later boundary would be behind the next character, and so behind the offset
    rintro k ⟨hk, hmin⟩
    obtain ⟨xs, xs', hcode', rfl⟩ := isValid_iff_exists_append.1 hk
    by_contra hgreater
    obtain ⟨zs, hzs, rfl⟩ := exists_eq_append_of_utf8Length_lt hcode hcode' (Nat.not_le.1 hgreater)
    obtain ⟨c, zs, rfl⟩ := List.exists_cons_of_ne_nil hzs
    have hafter : after = c :: (zs ++ xs') := by
      rw [hcode, List.append_assoc] at hcode'
      exact List.append_cancel_left hcode'
    have hbehind := hlt c (by rw [hafter]; rfl)
    have hlength : utf8Length (c :: zs) = c.utf8Size + utf8Length zs := List.sum_cons
    rw [utf8Length_append] at hmin
    omega

/-- Different character boundaries have different places, in the order of the code; any offset has the place of the
last character boundary that exceeds neither it nor the length of the code; and to go on by one character adds one to
the column or, at a newline, starts the next line. So the line is one more than the newlines in front of the place, and
the column one more than the characters behind the last of these newlines. -/
theorem ofOffset_faithful (code : String) :
    (∀ a b, String.Pos.Raw.IsValid code ⟨a⟩ → String.Pos.Raw.IsValid code ⟨b⟩ → a < b →
      (ofOffset code a).Before (ofOffset code b)) ∧
    (∀ n, ∃ k, (ofOffset code n).offset = k ∧
      IsGreatest {k | String.Pos.Raw.IsValid code ⟨k⟩ ∧ k ≤ min n code.utf8ByteSize} k ∧
      ofOffset code n = ofOffset code k) ∧
    (∀ before c after, code.toList = before ++ c :: after →
      let l := ofOffset code (utf8Length before)
      ofOffset code (utf8Length before + c.utf8Size) =
        if c = '\n' then ⟨l.offset + c.utf8Size, l.line + 1, 1⟩
        else ⟨l.offset + c.utf8Size, l.line, l.column + 1⟩) ∧
    ∀ before after, code.toList = before ++ after → ofOffset code (utf8Length before) =
      ⟨utf8Length before, before.count '\n' + 1, (before.reverse.takeWhile (· ≠ '\n')).length + 1⟩ := by
  refine ⟨fun a b ha hb hlt => ?_, exists_isGreatest code, fun before c after hcode => ?_, fun before after hcode => ?_⟩
  · obtain ⟨xs, xs', hx, rfl⟩ := isValid_iff_exists_append.1 ha
    obtain ⟨ys, ys', hy, rfl⟩ := isValid_iff_exists_append.1 hb
    obtain ⟨zs, hzs, rfl⟩ := exists_eq_append_of_utf8Length_lt hx hy hlt
    rw [ofOffset_utf8Length hx, ofOffset_utf8Length hy, afterText_append]
    exact before_afterText _ hzs
  · intro l
    have hnext : code.toList = (before ++ [c]) ++ after := by simp [hcode]
    have hlength : utf8Length (before ++ [c]) = utf8Length before + c.utf8Size := by
      rw [utf8Length_append]
      simp [utf8Length]
    have hl : l = start.afterText before := ofOffset_utf8Length hcode
    rw [← hlength, ofOffset_utf8Length hnext, afterText_append, ← hl]
    rfl
  · rw [ofOffset_utf8Length hcode, start_afterText]

/-- The places of a code that has fewer lines than 32 bits can count are reported as they are. -/
theorem saturated_ofOffset (h : code.toList.count '\n' < greatestLine) (n : Nat) :
    (ofOffset code n).saturated = ofOffset code n := by
  obtain ⟨before, after, hcode, hseek, -, -⟩ := seek_spec (l := start) code.toList (Nat.zero_le n)
  have hline : (ofOffset code n).line ≤ greatestLine := by
    rw [ofOffset, hseek, start_afterText]
    rw [hcode, List.count_append] at h
    exact Nat.succ_le_of_lt (Nat.lt_of_le_of_lt (Nat.le_add_right _ _) h)
  rw [saturated, Nat.min_eq_left hline]

/-- Offsets within characters of more than one byte, and behind the end. -/
example : [0, 1, 2, 3, 4, 6, 9].map (ofOffset "é\n😀") =
    [⟨0, 1, 1⟩, ⟨0, 1, 1⟩, ⟨2, 1, 2⟩, ⟨3, 2, 1⟩, ⟨3, 2, 1⟩, ⟨3, 2, 1⟩, ⟨7, 2, 2⟩] := by
  rfl

end Location

end Reckon

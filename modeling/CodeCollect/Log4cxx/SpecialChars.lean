import CodeCollect.Library.TextLoop
import CodeCollect.Log4cxx.LogChar

namespace CodeCollect.Log4cxx.OptionConverter

open CodeCollect.Library

/-- This is the value of a backslash. -/
def backslash : Nat := 0x5C

/-- The loop replaces the second `logchar` of an escape by this one. -/
def special (c : Nat) : Nat :=
  if c = 0x6E then 0x0A
  else if c = 0x72 then 0x0D
  else if c = 0x74 then 0x09
  else if c = 0x66 then 0x0C
  else c

/-- The loop goes on from `i` with this `sbuf`, and it has no result when it passes the end. -/
def convertSpecialCharsFrom (sbuf : LogChars) : LogChars → Option LogChars
  | [] => some sbuf
  | c :: i =>
      if c = backslash then
        match i with
        -- The iterator comes behind the end, which the loop does not notice.
        | [] => none
        | c :: i => convertSpecialCharsFrom (sbuf ++ [special c]) i
      else convertSpecialCharsFrom (sbuf ++ [c]) i

def convertSpecialChars (s : LogChars) : Option LogChars := convertSpecialCharsFrom [] s

/-- The documented syntax has escapes of two characters and characters that stand for
themselves. -/
inductive Token where
  | plain (c : Nat) (ordinary : c ≠ backslash)
  | escape (c : Nat)

namespace Token

def source : Token → LogChars
  | plain c _ => [c]
  | escape c => [backslash, c]

/-- Only four escapes stand for something else than their second character. -/
def image : Token → Nat
  | plain c _ => c
  | escape 0x6E => 0x0A
  | escape 0x72 => 0x0D
  | escape 0x74 => 0x09
  | escape 0x66 => 0x0C
  | escape c => c

theorem image_escape (c : Nat) : (escape c).image = special c := by
  rw [special]
  split_ifs with n r t f
  · rw [n, image]
  · rw [r, image]
  · rw [t, image]
  · rw [f, image]
  · rw [image]
    · exact n
    · exact r
    · exact t
    · exact f

end Token

/-- The loop reads the string token by token. -/
theorem convertSpecialCharsFrom_tokens (tokens : List Token) (sbuf rest : LogChars) :
    convertSpecialCharsFrom sbuf (tokens.flatMap Token.source ++ rest) =
      convertSpecialCharsFrom (sbuf ++ tokens.map Token.image) rest := by
  induction tokens generalizing sbuf with
  | nil => rw [List.flatMap_nil, List.map_nil, List.nil_append, List.append_nil]
  | cons token tokens ih =>
      rw [List.flatMap_cons, List.append_assoc, List.map_cons]
      cases token with
      | plain c ordinary =>
          rw [Token.source, List.singleton_append, convertSpecialCharsFrom.eq_def]
          dsimp only
          rw [if_neg ordinary, ih, List.append_assoc]
          rfl
      | escape c =>
          rw [Token.source, List.cons_append, List.singleton_append,
            convertSpecialCharsFrom.eq_def]
          dsimp only
          rw [if_pos rfl, ih, List.append_assoc, Token.image_escape]
          rfl

/-- A string is made of tokens, or it is made of tokens and one more backslash. -/
theorem tokens_or_backslash (s : LogChars) :
    (Even (trailing backslash s) ∧ ∃ tokens : List Token, s = tokens.flatMap Token.source) ∨
      ¬ Even (trailing backslash s) ∧
        ∃ tokens : List Token, s = tokens.flatMap Token.source ++ [backslash] := by
  induction bound : s.length using Nat.strong_induction_on generalizing s with
  | _ length ih =>
      -- The first token and the tokens of the rest are the tokens of the whole string.
      have first : ∀ (token : Token) (rest : LogChars), s = token.source ++ rest →
          (Even (trailing backslash s) ↔ Even (trailing backslash rest)) →
          rest.length < s.length →
          (Even (trailing backslash s) ∧ ∃ tokens : List Token,
            s = tokens.flatMap Token.source) ∨
          ¬ Even (trailing backslash s) ∧
            ∃ tokens : List Token, s = tokens.flatMap Token.source ++ [backslash] := by
        intro token rest same parity shorter
        rw [parity]
        rcases ih rest.length (bound ▸ shorter) rest rfl with ⟨even, tokens, rfl⟩ |
          ⟨odd, tokens, rfl⟩
        · exact Or.inl ⟨even, token :: tokens, same⟩
        · exact Or.inr ⟨odd, token :: tokens, by
            rw [same, List.flatMap_cons, List.append_assoc]⟩
      cases s with
      | nil => exact Or.inl ⟨by decide, [], rfl⟩
      | cons c rest =>
          by_cases escaping : c = backslash
          · subst escaping
            cases rest with
            | nil => exact Or.inr ⟨not_even_trailing_one backslash, [], rfl⟩
            | cons c rest =>
                apply first (.escape c) rest rfl (even_trailing_pair backslash c rest)
                rw [List.length_cons, List.length_cons]
                omega
          · apply first (.plain c escaping) rest rfl
            · rw [trailing_cons_of_ne escaping]
            · exact Nat.lt_succ_self _

/-- The string is read to its end as tokens, and each one becomes its image. -/
def Converts (s : LogChars) : Prop :=
  ∃ tokens : List Token, s = tokens.flatMap Token.source ∧
    convertSpecialChars s = some (tokens.map Token.image)

/-- The loop passes the end exactly when an odd number of backslashes is there. -/
theorem converts_iff (s : LogChars) :
    (Converts s ↔ Even (trailing backslash s)) ∧
      (convertSpecialChars s = none ↔ ¬ Even (trailing backslash s)) := by
  rcases tokens_or_backslash s with ⟨even, tokens, rfl⟩ | ⟨odd, tokens, rfl⟩
  · have converted : convertSpecialChars (tokens.flatMap Token.source) =
        some (tokens.map Token.image) := by
      have read := convertSpecialCharsFrom_tokens tokens [] []
      rw [List.append_nil] at read
      exact read
    refine ⟨iff_of_true ⟨tokens, rfl, converted⟩ even, iff_of_false ?_ (not_not_intro even)⟩
    rw [converted]
    exact Option.some_ne_none _
  · have passes : convertSpecialChars (tokens.flatMap Token.source ++ [backslash]) = none := by
      rw [convertSpecialChars, convertSpecialCharsFrom_tokens]
      rfl
    refine ⟨iff_of_false (fun converts => ?_) odd, iff_of_true passes odd⟩
    obtain ⟨_, _, converted⟩ := converts
    exact Option.some_ne_none _ (converted.symm.trans passes)

/-- A backslash alone makes the loop pass the end. -/
theorem backslash_overruns : convertSpecialChars [0x5C] = none ∧ ¬ Converts [0x5C] := by
  refine ⟨rfl, fun converts => ?_⟩
  obtain ⟨_, _, converted⟩ := converts
  exact absurd converted (by simp [convertSpecialChars, convertSpecialCharsFrom, backslash])

end CodeCollect.Log4cxx.OptionConverter

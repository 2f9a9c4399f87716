import OpCartesi.Common.Bytes

/-!
# Self-delimiting codes of byte strings

* `code`, `codes`: a byte string, and a list of them, written so that the end can be told.
  `code_append_inj`, `codes_injective`: what was written can be told from what was written.
* `natCode`: a number by its base-256 digits.
-/

namespace OpCartesi.Codes

/-- Every byte after a one, then a zero. -/
def code : Bytes → Bytes
  | [] => [0]
  | b :: l => 1 :: b :: code l

/-- Every string after a one, then a zero. -/
def codes : List Bytes → Bytes
  | [] => [0]
  | l :: ls => 1 :: (code l ++ codes ls)

theorem code_append_inj (l : Bytes) : ∀ {l' r r' : Bytes},
    code l ++ r = code l' ++ r' → l = l' ∧ r = r' := by
  induction l with
  | nil =>
    intro l' r r' h
    cases l' with
    | nil => exact ⟨rfl, by simpa [code] using h⟩
    | cons b l' => simp [code] at h
  | cons a l ih =>
    intro l' r r' h
    cases l' with
    | nil => simp [code] at h
    | cons b l' =>
      simp only [code, List.cons_append, List.cons.injEq, true_and] at h
      obtain ⟨rfl, hrest⟩ := h
      obtain ⟨rfl, hr⟩ := ih hrest
      exact ⟨rfl, hr⟩

theorem code_injective : Function.Injective code := by
  intro l l' h
  exact (code_append_inj l (congrArg (· ++ []) h)).1

theorem codes_injective : Function.Injective codes := by
  intro ls
  induction ls with
  | nil =>
    intro ls' h
    cases ls' with
    | nil => rfl
    | cons l' ls' => simp [codes] at h
  | cons l ls ih =>
    intro ls' h
    cases ls' with
    | nil => simp [codes] at h
    | cons l' ls' =>
      simp only [codes, List.cons.injEq, true_and] at h
      obtain ⟨rfl, hrest⟩ := code_append_inj l h
      rw [ih hrest]

/-- The base-256 digits of a number. -/
def natCode (n : ℕ) : Bytes := (Nat.digits 256 n).map (Fin.ofNat 256)

theorem natCode_injective : Function.Injective natCode := by
  intro n m h
  have hval : ∀ k : ℕ, (natCode k).map Fin.val = Nat.digits 256 k := by
    intro k
    rw [natCode, List.map_map]
    conv_rhs => rw [← List.map_id (Nat.digits 256 k)]
    refine List.map_congr_left fun d hd => ?_
    exact Nat.mod_eq_of_lt (Nat.digits_lt_base (by norm_num) hd)
  rw [← Nat.digits_inj_iff (b := 256), ← hval, ← hval, h]

/-- An absent value is written as the empty string. -/
def optionCode : Option Bytes → Bytes
  | none => []
  | some b => 1 :: b

theorem optionCode_injective : Function.Injective optionCode := by
  intro a b h
  cases a <;> cases b <;> simp_all [optionCode]

end OpCartesi.Codes

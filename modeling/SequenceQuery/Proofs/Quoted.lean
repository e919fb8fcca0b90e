import SequenceQuery.Text.Quoted

namespace SequenceQuery.Text

/-- Two texts that go on in some class of characters, each up to where the class is left. -/
theorem cut_at {α : Type} {p : α → Bool} {a b r s : List α} (ha : ∀ c ∈ a, p c)
    (hb : ∀ c ∈ b, p c) (hr : ∀ c ∈ r.head?, p c = false) (hs : ∀ c ∈ s.head?, p c = false)
    (h : a ++ r = b ++ s) : a = b ∧ r = s := by
  have stop : ∀ t : List α, (∀ c ∈ t.head?, p c = false) → t.takeWhile p = [] := by
    intro t ht
    cases t with
    | nil => rfl
    | cons c t => simp [ht c (by simp)]
  have hw := congrArg (List.takeWhile p) h
  rw [List.takeWhile_append_of_pos ha, List.takeWhile_append_of_pos hb, stop r hr, stop s hs,
    List.append_nil, List.append_nil] at hw
  exact ⟨hw, List.append_cancel_left (hw ▸ h)⟩

namespace Hex

theorem digitChar_inj {m n : Nat} (hm : m < 16) (hn : n < 16)
    (h : Nat.digitChar m = Nat.digitChar n) : m = n := by
  have table : ∀ i < 16, ∀ j < 16, Nat.digitChar i = Nat.digitChar j → i = j := by decide
  exact table m hm n hn h

theorem toDigits_inj {b m n : Nat} (hb : 1 < b) (hb' : b ≤ 16)
    (h : Nat.toDigits b m = Nat.toDigits b n) : m = n := by
  induction m using Nat.strongRecOn generalizing n with
  | ind m ih =>
    rw [Nat.toDigits_eq_if hb, Nat.toDigits_eq_if hb (n := n)] at h
    have hm := Nat.mod_lt m (show 0 < b by omega)
    have hn := Nat.mod_lt n (show 0 < b by omega)
    split at h <;> split at h
    · exact digitChar_inj (by omega) (by omega) (by simpa using h)
    · have := congrArg List.length h
      have := @Nat.length_toDigits_pos b (n / b)
      simp only [List.length_append, List.length_cons, List.length_nil] at *
      omega
    · have := congrArg List.length h
      have := @Nat.length_toDigits_pos b (m / b)
      simp only [List.length_append, List.length_cons, List.length_nil] at *
      omega
    · obtain ⟨hq, hr⟩ := List.append_inj' h rfl
      have hq := ih (m / b) (Nat.div_lt_self (by omega) hb) hq
      have hr : m % b = n % b := digitChar_inj (by omega) (by omega) (by simpa using hr)
      rw [← Nat.div_add_mod m b, ← Nat.div_add_mod n b, hq, hr]

theorem mem_toDigits {b n : Nat} {c : Char} (hb : 1 < b) (h : c ∈ Nat.toDigits b n) :
    ∃ d < b, c = Nat.digitChar d := by
  induction n using Nat.strongRecOn with
  | ind n ih =>
    rw [Nat.toDigits_eq_if hb] at h
    split at h
    · exact ⟨n, ‹_›, by simpa using h⟩
    · rcases List.mem_append.1 h with h | h
      · exact ih (n / b) (Nat.div_lt_self (by omega) hb) h
      · exact ⟨n % b, Nat.mod_lt n (by omega), by simpa using h⟩

theorem brace_not_mem_natural (n : Nat) : '\x7d' ∉ natural n := by
  intro h
  obtain ⟨d, hd, he⟩ := mem_toDigits (by decide) h
  have table : ∀ i < 16, '\x7d' ≠ Nat.digitChar i := by decide
  exact table d hd he

end Hex

namespace Quoted

def letters : List (Char × Char) :=
  [('"', '"'), ('\\', '\\'), ('\n', 'n'), ('\r', 'r'), ('\t', 't'), ('\x00', '0')]

theorem escape_cases (c : Char) :
    (escape c = [c] ∧ c ≠ '"' ∧ c ≠ '\\') ∨ (∃ k, (c, k) ∈ letters ∧ escape c = ['\\', k]) ∨
      escape c = codePoint c := by
  by_cases hq : c = '"'
  · exact .inr (.inl ⟨'"', by simp [letters, hq], by simp [escape, hq]⟩)
  by_cases hb : c = '\\'
  · exact .inr (.inl ⟨'\\', by simp [letters, hb], by simp [escape, hb]⟩)
  by_cases hn : c = '\n'
  · exact .inr (.inl ⟨'n', by simp [letters, hn], by simp [escape, hn]⟩)
  by_cases hr : c = '\r'
  · exact .inr (.inl ⟨'r', by simp [letters, hr], by simp [escape, hr]⟩)
  by_cases ht : c = '\t'
  · exact .inr (.inl ⟨'t', by simp [letters, ht], by simp [escape, ht]⟩)
  by_cases hz : c.toNat = 0
  · have hc : c = '\x00' := Char.toNat_inj.1 hz
    exact .inr (.inl ⟨'0', by simp [letters, hc], by simp [escape, hc]⟩)
  by_cases hv : isVisible c
  · exact .inl ⟨by simp [escape, hq, hb, hn, hr, ht, hz, hv], hq, hb⟩
  · exact .inr (.inr (by simp [escape, hq, hb, hn, hr, ht, hz, hv]))

theorem codePoint_append_inj {c d : Char} {r s : List Char}
    (h : codePoint c ++ r = codePoint d ++ s) : c = d ∧ r = s := by
  simp only [codePoint, List.append_assoc, List.cons_append, List.nil_append,
    List.cons.injEq, true_and] at h
  have digits : ∀ n, ∀ x ∈ Hex.natural n, (fun x => decide (x ≠ '\x7d')) x = true := by
    intro n x hx
    simpa using fun he : x = '\x7d' => Hex.brace_not_mem_natural n (he ▸ hx)
  obtain ⟨hn, ht⟩ := cut_at (digits _) (digits _) (by simp) (by simp) h
  have hc := Hex.toDigits_inj (by decide) (by decide) hn
  exact ⟨Char.toNat_inj.1 hc, by simpa using ht⟩

theorem escape_append_inj {c d : Char} {r s : List Char}
    (h : escape c ++ r = escape d ++ s) : c = d ∧ r = s := by
  have table : ∀ x ∈ letters, ∀ y ∈ letters, x.2 = y.2 → x.1 = y.1 := by decide
  have noU : ∀ x ∈ letters, x.2 ≠ 'u' := by decide
  rcases escape_cases c with ⟨hc, -, hc'⟩ | ⟨k, hk, hc⟩ | hc <;>
    rcases escape_cases d with ⟨hd, -, hd'⟩ | ⟨l, hl, hd⟩ | hd <;> rw [hc, hd] at h
  · simpa using h
  · simp [hc'] at h
  · simp [codePoint, hc'] at h
  · simp [Ne.symm hd'] at h
  · simp only [List.cons_append, List.nil_append, List.cons.injEq, true_and] at h
    exact ⟨table _ hk _ hl h.1, h.2⟩
  · simp [codePoint, noU _ hk] at h
  · simp [codePoint, Ne.symm hd'] at h
  · simp [codePoint, Ne.symm (noU _ hl)] at h
  · exact codePoint_append_inj h

theorem escape_ne_quote (c : Char) (r s : List Char) : escape c ++ r ≠ '"' :: s := by
  rcases escape_cases c with ⟨h, hq, -⟩ | ⟨k, -, h⟩ | h <;> rw [h] <;> simp [codePoint, *]

theorem encode_append_inj {s t r r' : List Char} (h : encode s ++ r = encode t ++ r') :
    s = t ∧ r = r' := by
  simp only [encode, List.append_assoc, List.cons_append, List.nil_append, List.cons.injEq,
    true_and] at h
  induction s generalizing t with
  | nil =>
    cases t with
    | nil => simpa using h
    | cons d t => exact absurd (by simpa using h.symm) (escape_ne_quote d _ r)
  | cons c s ih =>
    cases t with
    | nil => exact absurd (by simpa using h) (escape_ne_quote c _ r')
    | cons d t =>
      simp only [List.flatMap_cons, List.append_assoc] at h
      obtain ⟨hc, hst⟩ := escape_append_inj h
      obtain ⟨hs, hr⟩ := ih hst
      exact ⟨by rw [hc, hs], hr⟩

end Quoted

end SequenceQuery.Text

import BulkEdit.Proofs.Glob.Spelling
import BulkEdit.Text.Search

/-!
# Globs that match at any depth

A glob that begins with two stars and a slash is read as a token that skips any folders, and other tokens
behind it (`parse_anyDepth`). So it matches a path as soon as it matches what is behind one of the path's
separators (`isMatch_of_below`): the more ends of a text the other tokens may start from, the more they may
leave (`afterTokens_mono`).
-/

namespace BulkEdit.Glob

open Text (encoded encoded_append)

variable {ts : List Token} {bs e : List UInt8}

/-! ### Matching -/

theorem afterTokens_mono {texts texts' : List (List UInt8)} (hsub : texts ⊆ texts')
    (hends : ∀ x ∈ texts', x <:+ bs) (h : e ∈ afterTokens ts texts) : e ∈ afterTokens ts texts' := by
  induction ts generalizing texts texts' with
  | nil => exact hsub h
  | cons t rest ih =>
    have hafter : ∀ x ∈ texts'.flatMap fun bs => afterToken t bs, x <:+ bs := by
      intro x hx
      obtain ⟨y, hy, hx⟩ := List.mem_flatMap.1 hx
      exact (suffix_of_mem_afterToken t hx).trans (hends y hy)
    have hmore : (texts.flatMap fun bs => afterToken t bs) ⊆ texts'.flatMap fun bs => afterToken t bs := by
      intro x hx
      obtain ⟨y, hy, hx⟩ := List.mem_flatMap.1 hx
      exact List.mem_flatMap.2 ⟨y, hsub hy, hx⟩
    rw [afterTokens] at h ⊢
    refine ih (fun x hx => ?_) (fun x hx => hafter x ((mem_distinct hafter).1 hx)) h
    exact (mem_distinct hafter).2 (hmore ((mem_distinct fun y hy => hafter y (hmore hy)).1 hx))

theorem endsAfterSlash_append (above bs : List UInt8) : endsAfterSlash bs ⊆ endsAfterSlash (above ++ bs) := by
  induction above with
  | nil => exact List.Subset.refl _
  | cons b rest ih =>
    rw [List.cons_append, endsAfterSlash]
    split
    · exact List.Subset.trans ih (List.subset_cons_self _ _)
    · exact ih

theorem tokensMatch_of_below (above : List UInt8) (h : tokensMatch (.deepStart :: ts) bs = true) :
    tokensMatch (.deepStart :: ts) (above ++ slash :: bs) = true := by
  cases ts with
  | nil => rfl
  | cons t rest =>
    rw [tokensMatch, List.any_eq_true] at h ⊢
    · obtain ⟨e, he, hnil⟩ := h
      refine ⟨e, ?_, hnil⟩
      have hends : ∀ x ∈ afterToken .deepStart (above ++ slash :: bs), x <:+ above ++ slash :: bs :=
        fun x hx => suffix_of_mem_afterToken _ hx
      have hsub : afterToken .deepStart bs ⊆ afterToken .deepStart (above ++ slash :: bs) := by
        have hmore := endsAfterSlash_append (above ++ [slash]) bs
        rw [List.append_assoc, List.singleton_append] at hmore
        rw [afterToken, afterToken]
        exact List.cons_subset.2 ⟨List.mem_cons_of_mem _ (mem_endsAfterSlash above),
          List.Subset.trans hmore (List.subset_cons_self _ _)⟩
      rw [afterTokens, List.flatMap_singleton] at he ⊢
      refine afterTokens_mono (fun x hx => ?_) (fun x hx => hends x ((mem_distinct hends).1 hx)) he
      exact (mem_distinct hends).2 (hsub ((mem_distinct fun y hy => suffix_of_mem_afterToken _ hy).1 hx))
    all_goals simp

theorem baseName_append (above bs : List UInt8) : baseName (above ++ slash :: bs) = baseName bs := by
  have hlast : (above ++ slash :: bs).reverse.takeWhile (· != slash) = bs.reverse.takeWhile (· != slash) := by
    rw [List.reverse_append, List.reverse_cons, List.append_assoc, List.takeWhile_append]
    split
    · rename_i hall
      rw [List.singleton_append, List.takeWhile_cons_of_neg (by simp), List.append_nil]
      exact ((List.takeWhile_prefix _).eq_of_length hall).symm
    · rfl
  unfold baseName
  rw [hlast]

theorem extensionOf_append (above bs : List UInt8) : extensionOf (above ++ slash :: bs) = extensionOf bs := by
  unfold extensionOf
  rw [baseName_append]

/-! ### Reading -/

/-- The first token, with which all groups began or will begin, skips any folders. -/
def Rooted (p : Progress) : Prop :=
  match p.groups.getLast? with
  | none => p.tokens.getLast? = some .deepStart
  | some g => g.outer.getLast? = some .deepStart

namespace Rooted

variable {p : Progress}

theorem push (h : Rooted p) (t : Token) : Rooted (p.push t) := by
  unfold Rooted Progress.push at *
  split at h
  · rename_i hgroups
    simp [hgroups, List.getLast?_cons, h]
  · rename_i g hgroups
    simpa [hgroups] using h

theorem openGroup (h : Rooted p) : Rooted p.openGroup := by
  unfold Rooted Progress.openGroup at *
  split at h
  · rename_i hgroups
    simpa [hgroups, List.getLast?_cons] using h
  · rename_i g hgroups
    simpa [hgroups, List.getLast?_cons] using h

theorem comma (h : Rooted p) : Rooted p.comma := by
  unfold Progress.comma
  split
  · exact h.push _
  · rename_i g outer hgroups
    unfold Rooted at *
    rw [hgroups] at h
    cases outer with
    | nil => simpa using h
    | cons g' outer => simpa [List.getLast?_cons] using h

theorem closeGroup {p' : Progress} (h : Rooted p) (hclose : p.closeGroup = .ok p') : Rooted p' := by
  unfold Progress.closeGroup at hclose
  split at hclose
  · cases hclose
  · rename_i g outer hgroups
    obtain rfl := Except.ok.inj hclose
    unfold Rooted at *
    rw [hgroups] at h
    cases outer with
    | nil =>
      have houter : g.outer.getLast? = some .deepStart := by simpa using h
      simp [List.getLast?_cons, houter]
    | cons g' outer => simpa [List.getLast?_cons] using h

/-- The last token can give way to another unless it is the first. -/
theorem replace {p : Progress} (h : Rooted p) {t : Token} {earlier : List Token}
    (htokens : p.tokens = t :: earlier) (ht : t ≠ .deepStart) (t' : Token) :
    Rooted { p with tokens := t' :: earlier } := by
  unfold Rooted at *
  split at h
  · rename_i hgroups
    rw [htokens, List.getLast?_cons] at h
    cases earlier with
    | nil => exact absurd (Option.some.inj h) ht
    | cons t'' more => simpa [hgroups, List.getLast?_cons] using h
  · rename_i g hgroups
    simpa [hgroups] using h

theorem readStars (h : Rooted p) (previous : Option Char) (rest : List Char) :
    Rooted (Glob.readStars p previous rest).1 := by
  have hstars : Rooted p.pushStars := (h.push _).push _
  unfold Glob.readStars
  grind [Rooted.push, Rooted.replace]

theorem readFrom {fuel : Nat} {previous : Option Char} {cs : List Char} {p' : Progress} (h : Rooted p)
    (hread : Glob.readFrom fuel p previous cs = .ok p') : Rooted p' := by
  induction fuel generalizing p previous cs with
  | zero =>
    obtain rfl := Except.ok.inj hread
    exact h
  | succ fuel ih =>
    cases cs with
    | nil =>
      obtain rfl := Except.ok.inj hread
      exact h
    | cons c rest =>
      unfold Glob.readFrom at hread
      split_ifs at hread
      · exact ih (h.push _) hread
      · -- two stars, or one
        split at hread
        · dsimp only at hread
          split at hread
          · exact ih (h.readStars _ _) hread
          · exact ih (h.readStars _ _) hread
        · exact ih (h.push _) hread
      · -- a class
        split at hread
        · cases hread
        · exact ih (h.push _) hread
      · exact ih h.openGroup hread
      · split at hread
        · cases hread
        · rename_i hclose
          exact ih (h.closeGroup hclose) hread
      · exact ih h.comma hread
      · -- an escape
        split at hread
        · cases hread
        · exact ih (h.push _) hread
      · exact ih (h.push _) hread

end Rooted

theorem parse_anyDepth {pattern : String} {tokens : List Token}
    (hdeep : Text.startsWith pattern "**/" = true) (hparse : parse pattern = .ok tokens) :
    ∃ ts, tokens = .deepStart :: ts := by
  obtain ⟨more, hmore⟩ := List.isPrefixOf_iff_prefix.1 hdeep
  have hcs : pattern.toList = '*' :: '*' :: '/' :: more := hmore.symm
  have hstart : readFrom (more.length + 3) ⟨[], []⟩ none ('*' :: '*' :: '/' :: more) =
      readFrom (more.length + 2) ⟨[.deepStart], []⟩ (some '/') more := rfl
  unfold parse at hparse
  rw [hcs] at hparse
  change readFrom (more.length + 3) ⟨[], []⟩ none _ >>= _ = _ at hparse
  rw [hstart] at hparse
  cases hread : readFrom (more.length + 2) ⟨[.deepStart], []⟩ (some '/') more with
  | error e =>
    rw [hread] at hparse
    cases hparse
  | ok p =>
    rw [hread] at hparse
    have hrooted : Rooted p := Rooted.readFrom (p := ⟨[.deepStart], []⟩) rfl hread
    change (if p.groups.isEmpty then _ else _) = _ at hparse
    split at hparse
    · rename_i hgroups
      obtain rfl := Except.ok.inj hparse
      unfold Rooted at hrooted
      rw [List.isEmpty_iff.1 hgroups] at hrooted
      obtain ⟨before, hbefore⟩ := List.getLast?_eq_some_iff.1 hrooted
      exact ⟨before.reverse, by rw [hbefore, List.reverse_append]; rfl⟩
    · cases hparse

/-- **A glob for any depth matches a path** if it matches what is behind one of the path's separators. -/
theorem isMatch_of_below {pattern : String} {tokens : List Token}
    (hdeep : Text.startsWith pattern "**/" = true) (hparse : parse pattern = .ok tokens)
    {whole inner : String} {above : List Char} (hwhole : whole.toList = above ++ '/' :: inner.toList)
    (h : isMatch tokens inner = true) : isMatch tokens whole = true := by
  obtain ⟨ts, rfl⟩ := parse_anyDepth hdeep hparse
  have hbytes : encoded whole.toList = encoded above ++ slash :: encoded inner.toList := by
    rw [hwhole, encoded_append]
    rfl
  unfold isMatch at h ⊢
  rw [Text.toList_toUTF8, Bool.and_eq_true] at h ⊢
  rw [hbytes, extensionOf_append]
  exact ⟨h.1, tokensMatch_of_below _ h.2⟩

end BulkEdit.Glob

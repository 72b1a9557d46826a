import BulkEdit.Glob.Match
import BulkEdit.Proofs.Text.Bytes

/-!
# Texts that are their own globs

A path that is read as a glob matches itself, also where its stars and question marks stand for more, as
long as there is no bracket, no brace and no backslash in it (`isMatch_self`). The tokens that have been read
always spell the characters that have been read (`Spells`, `readFrom_spells`), and tokens match what they
spell (`Spells.tokensMatch`).
-/

namespace BulkEdit.Glob

open Text (encoded encoded_append)

variable {t : Token} {ts : List Token} {bs e e' : List UInt8} {cs done : List Char}

/-! ### Ends of a text -/

theorem mem_distinct {ends : List (List UInt8)} (hends : ∀ e ∈ ends, e <:+ bs) :
    e ∈ distinct ends ↔ e ∈ ends := by
  suffices h : ∀ keep : List UInt8 → List (Nat × List UInt8) → List (Nat × List UInt8),
      keep = (fun e kept => if kept.any (·.1 == e.length) then kept else (e.length, e) :: kept) →
      (∀ x ∈ ends.foldr keep [], x.1 = x.2.length) ∧ ∀ e, e ∈ (ends.foldr keep []).map Prod.snd ↔ e ∈ ends by
    exact (h _ rfl).2 e
  rintro keep rfl
  induction ends with
  | nil => simp
  | cons first rest ih =>
    obtain ⟨hlength, hmem⟩ := ih fun e he => hends e (List.mem_cons_of_mem _ he)
    rw [List.foldr_cons]
    generalize rest.foldr _ [] = kept at hlength hmem ⊢
    split
    · rename_i hany
      refine ⟨hlength, fun e => ?_⟩
      obtain ⟨⟨n, other⟩, hkept, hn⟩ := List.any_eq_true.1 hany
      have hother := (hmem other).1 (List.mem_map_of_mem hkept)
      -- ends of one text that have the same length are the same
      have hsame : first = other := by
        refine List.IsSuffix.eq_of_length (List.suffix_of_suffix_length_le
          (hends _ (List.mem_cons_self ..)) (hends _ (List.mem_cons_of_mem _ hother)) ?_) ?_
        all_goals
          have := hlength _ hkept
          simp at hn this
          omega
      rw [hmem, List.mem_cons]
      exact ⟨Or.inr, fun h => h.elim (fun he => he ▸ hsame ▸ hother) id⟩
    · refine ⟨fun x hx => ?_, fun e => by simp [hmem]⟩
      rcases List.mem_cons.1 hx with rfl | hx
      · rfl
      · exact hlength x hx

theorem suffix_of_mem_ends (h : e ∈ ends bs) : e <:+ bs := by
  induction bs with
  | nil => simp_all [ends]
  | cons b rest ih =>
    rw [ends] at h
    rcases List.mem_cons.1 h with rfl | h
    · exact List.suffix_refl _
    · exact (ih h).trans (List.suffix_cons b rest)

theorem mem_ends (before : List UInt8) : bs ∈ ends (before ++ bs) := by
  induction before with
  | nil => cases bs <;> simp [ends]
  | cons b rest ih => exact List.mem_cons_of_mem _ ih

theorem suffix_of_mem_endsInComponent (h : e ∈ endsInComponent bs) : e <:+ bs := by
  induction bs with
  | nil => simp_all [endsInComponent]
  | cons b rest ih =>
    rw [endsInComponent] at h
    split at h
    · exact List.mem_singleton.1 h ▸ List.suffix_refl _
    · rcases List.mem_cons.1 h with rfl | h
      · exact List.suffix_refl _
      · exact (ih h).trans (List.suffix_cons b rest)

theorem self_mem_endsInComponent (bs : List UInt8) : bs ∈ endsInComponent bs := by
  cases bs with
  | nil => simp [endsInComponent]
  | cons b rest =>
    rw [endsInComponent]
    split <;> simp

theorem suffix_of_mem_endsAfterSlash (h : e ∈ endsAfterSlash bs) : e <:+ bs := by
  induction bs with
  | nil => cases h
  | cons b rest ih =>
    rw [endsAfterSlash] at h
    split at h
    · rcases List.mem_cons.1 h with rfl | h
      · exact List.suffix_cons b _
      · exact (ih h).trans (List.suffix_cons b rest)
    · exact (ih h).trans (List.suffix_cons b rest)

theorem mem_endsAfterSlash (before : List UInt8) : bs ∈ endsAfterSlash (before ++ slash :: bs) := by
  induction before with
  | nil => simp [endsAfterSlash]
  | cons b rest ih =>
    rw [List.cons_append, endsAfterSlash]
    split
    · exact List.mem_cons_of_mem _ ih
    · exact ih

mutual

theorem suffix_of_mem_afterToken (t : Token) {bs e : List UInt8} (h : e ∈ afterToken t bs) : e <:+ bs := by
  cases t with
  | literal c =>
    simp only [afterToken] at h
    split at h
    · exact List.mem_singleton.1 h ▸ List.drop_suffix _ _
    · cases h
  | oneOf branches =>
    simp only [afterToken] at h
    split at h
    · exact List.mem_singleton.1 h ▸ List.suffix_refl _
    · have hends : ∀ x ∈ afterBranches branches bs, x <:+ bs :=
        fun x hx => suffix_of_mem_afterBranches branches hx
      exact hends e ((mem_distinct hends).1 h)
  | many => exact suffix_of_mem_endsInComponent (by simpa only [afterToken] using h)
  | deepStart =>
    simp only [afterToken] at h
    rcases List.mem_cons.1 h with rfl | h
    · exact List.suffix_refl _
    · exact suffix_of_mem_endsAfterSlash h
  | one =>
    cases bs with
    | nil => simp [afterToken] at h
    | cons b rest =>
      simp only [afterToken] at h
      split at h
      · cases h
      · exact List.mem_singleton.1 h ▸ List.suffix_cons b rest
  | «class» negated ranges =>
    cases bs with
    | nil => simp [afterToken] at h
    | cons b rest =>
      simp only [afterToken] at h
      split at h
      · exact List.mem_singleton.1 h ▸ List.suffix_cons b rest
      · cases h
  | deepEnd =>
    cases bs with
    | nil => simp [afterToken] at h
    | cons b rest =>
      simp only [afterToken] at h
      split at h
      · exact (suffix_of_mem_ends h).trans (List.suffix_cons b rest)
      · cases h
  | deepMiddle =>
    cases bs with
    | nil => simp [afterToken] at h
    | cons b rest =>
      simp only [afterToken] at h
      split at h
      · rcases List.mem_cons.1 h with rfl | h
        · exact List.suffix_cons b _
        · exact (suffix_of_mem_endsAfterSlash h).trans (List.suffix_cons b rest)
      · cases h

theorem suffix_of_mem_afterTokens (ts : List Token) {bs e : List UInt8} {texts : List (List UInt8)}
    (htexts : ∀ x ∈ texts, x <:+ bs) (h : e ∈ afterTokens ts texts) : e <:+ bs := by
  cases ts with
  | nil => exact htexts e h
  | cons t rest =>
    have hends : ∀ x ∈ texts.flatMap fun bs => afterToken t bs, x <:+ bs := by
      intro x hx
      obtain ⟨y, hy, hx⟩ := List.mem_flatMap.1 hx
      exact (suffix_of_mem_afterToken t hx).trans (htexts y hy)
    rw [afterTokens] at h
    exact suffix_of_mem_afterTokens rest (fun x hx => hends x ((mem_distinct hends).1 hx)) h

theorem suffix_of_mem_afterBranches (branches : List (List Token)) {bs e : List UInt8}
    (h : e ∈ afterBranches branches bs) : e <:+ bs := by
  cases branches with
  | nil => cases h
  | cons branch rest =>
    rw [afterBranches] at h
    rcases List.mem_append.1 h with h | h
    · split at h
      · cases h
      · exact suffix_of_mem_afterTokens branch (by simp) h
    · exact suffix_of_mem_afterBranches rest h

end

theorem afterTokens_concat (ts : List Token) (t : Token) (texts : List (List UInt8)) :
    afterTokens (ts ++ [t]) texts =
      distinct ((afterTokens ts texts).flatMap fun bs => afterToken t bs) := by
  induction ts generalizing texts with
  | nil => simp [afterTokens]
  | cons first rest ih => rw [List.cons_append, afterTokens, afterTokens, ih]

/-- The tokens may leave this end of the text, and leave nothing but ends. -/
def Leaves (ts : List Token) (bs e : List UInt8) : Prop :=
  e ∈ afterTokens ts [bs] ∧ ∀ x ∈ afterTokens ts [bs], x <:+ bs

theorem leaves_nil (bs : List UInt8) : Leaves [] bs bs := by
  simp [Leaves, afterTokens]

/-- **Step:** one more token. -/
theorem Leaves.concat (h : Leaves ts bs e) (he : e' ∈ afterToken t e) : Leaves (ts ++ [t]) bs e' := by
  have hends : ∀ x ∈ (afterTokens ts [bs]).flatMap (fun bs => afterToken t bs), x <:+ bs := by
    intro x hx
    obtain ⟨y, hy, hx⟩ := List.mem_flatMap.1 hx
    exact (suffix_of_mem_afterToken t hx).trans (h.2 y hy)
  unfold Leaves
  rw [afterTokens_concat]
  exact ⟨(mem_distinct hends).2 (List.mem_flatMap.2 ⟨e, h.1, he⟩),
    fun x hx => hends x ((mem_distinct hends).1 hx)⟩

/-! ### Tokens that spell a text -/

/-- The tokens, the latest first, spell the characters of a path: each matches what it was read from. -/
inductive Spells : List Token → List Char → Prop
  | start (above : List Char) : Spells [.deepStart] (above ++ ['/'])
  | literal {ts : List Token} {cs : List Char} (c : Char) :
      Spells ts cs → Spells (.literal c :: ts) (cs ++ [c])
  | one {ts : List Token} {cs : List Char} : Spells ts cs → Spells (.one :: ts) (cs ++ ['?'])
  | many {ts : List Token} {cs : List Char} : Spells ts cs → Spells (.many :: ts) (cs ++ ['*'])
  | deepMiddle {ts : List Token} {cs : List Char} (between : List Char) :
      Spells ts cs → Spells (.deepMiddle :: ts) (cs ++ '/' :: (between ++ ['/']))
  | deepEnd {ts : List Token} {cs : List Char} (below : List Char) :
      Spells ts cs → Spells (.deepEnd :: ts) (cs ++ '/' :: below)

theorem encoded_slash (cs : List Char) : encoded ('/' :: cs) = slash :: encoded cs := rfl

/-- **Run:** tokens take away what they spell. -/
theorem Spells.leaves (h : Spells ts cs) (rest : List UInt8) :
    Leaves ts.reverse (encoded cs ++ rest) rest := by
  induction h generalizing rest with
  | start above =>
    refine (leaves_nil _).concat ?_
    rw [afterToken, encoded_append, List.append_assoc]
    exact List.mem_cons_of_mem _ (mem_endsAfterSlash _)
  | literal c h ih =>
    rw [List.reverse_cons, encoded_append, List.append_assoc]
    refine (ih _).concat ?_
    have hc : encoded [c] = String.utf8EncodeChar c := List.flatMap_singleton ..
    simp [afterToken, hc]
  | one h ih =>
    rw [List.reverse_cons, encoded_append, List.append_assoc]
    refine (ih _).concat ?_
    have hmark : encoded ['?'] ++ rest = 63 :: rest := rfl
    rw [hmark, afterToken, if_neg (by decide)]
    exact List.mem_singleton_self _
  | many h ih =>
    rw [List.reverse_cons, encoded_append, List.append_assoc]
    refine (ih _).concat ?_
    have hmark : encoded ['*'] ++ rest = 42 :: rest := rfl
    rw [hmark, afterToken, endsInComponent, if_neg (by decide)]
    exact List.mem_cons_of_mem _ (self_mem_endsInComponent rest)
  | deepMiddle between h ih =>
    rw [List.reverse_cons, encoded_append, List.append_assoc]
    refine (ih _).concat ?_
    rw [encoded_slash, List.cons_append, afterToken, if_pos rfl, encoded_append, List.append_assoc]
    exact List.mem_cons_of_mem _ (mem_endsAfterSlash _)
  | deepEnd below h ih =>
    rw [List.reverse_cons, encoded_append, List.append_assoc]
    refine (ih _).concat ?_
    rw [encoded_slash, List.cons_append, afterToken, if_pos rfl]
    exact mem_ends _

/-- **Tokens match what they spell.** -/
theorem Spells.tokensMatch (h : Spells ts cs) : tokensMatch ts.reverse (encoded cs) = true := by
  have hleaves := (h.leaves []).1
  rw [List.append_nil] at hleaves
  unfold Glob.tokensMatch
  split
  · rfl
  · exact List.any_eq_true.2 ⟨[], hleaves, rfl⟩

/-! ### Reading a path as a glob -/

/-- A character that does not begin or end a class, a group or an escape. -/
def IsPlain (c : Char) : Prop := c ∉ ['[', '\x7b', '\x7d', '\\']

instance (c : Char) : Decidable (IsPlain c) := inferInstanceAs (Decidable (¬_))

/-- The last character that was read is a slash, as far as the tokens show. -/
def AfterSlash : List Token → Prop
  | .literal c :: _ => c = '/'
  | .deepStart :: _ => True
  | .deepMiddle :: _ => True
  | _ => False

/-- Two stars spell themselves, and the slash behind them if it is swallowed. At the end of a path
directly below the start they leave the start alone. -/
theorem readStars_spells {previous : Option Char} (h : Spells ts done)
    (hprevious : previous = some '/' → AfterSlash ts) (more : List Char) :
    (∃ ts', readStars ⟨ts, []⟩ previous more = (⟨ts', []⟩, false) ∧
        (Spells ts' (done ++ ['*', '*']) ∨ more = [] ∧ ts' = [.deepStart])) ∨
      ∃ ts' more', more = '/' :: more' ∧ readStars ⟨ts, []⟩ previous more = (⟨ts', []⟩, true) ∧
        AfterSlash ts' ∧ Spells ts' (done ++ ['*', '*', '/']) := by
  have hsome : ts.isEmpty = false := by cases h <;> rfl
  have hplain : Spells (.many :: .many :: ts) (done ++ ['*', '*']) := by
    simpa using h.many.many
  by_cases hslash : previous = some '/'
  · have hafter := hprevious hslash
    subst hslash
    cases more with
    | nil =>
      refine Or.inl ?_
      cases h with
      | start above => exact ⟨_, rfl, Or.inr ⟨rfl, rfl⟩⟩
      | @literal ts cs c h =>
        obtain rfl : c = '/' := hafter
        exact ⟨_, rfl, Or.inl (by simpa using h.deepEnd ['*', '*'])⟩
      | deepMiddle between h =>
        exact ⟨_, rfl, Or.inl (by simpa using h.deepEnd (between ++ ['/', '*', '*']))⟩
      | _ => exact hafter.elim
    | cons c more =>
      by_cases hc : c = '/'
      · subst hc
        refine Or.inr ?_
        cases h with
        | start above =>
          exact ⟨_, more, rfl, rfl, trivial, by simpa using Spells.start (above ++ ['/', '*', '*'])⟩
        | @literal ts cs c h =>
          obtain rfl : c = '/' := hafter
          exact ⟨_, more, rfl, rfl, trivial, by simpa using h.deepMiddle ['*', '*']⟩
        | deepMiddle between h =>
          exact ⟨_, more, rfl, rfl, trivial, by simpa using h.deepMiddle (between ++ ['/', '*', '*'])⟩
        | _ => exact hafter.elim
      · refine Or.inl ⟨_, ?_, Or.inl hplain⟩
        delta readStars
        simp [hsome, Progress.pushStars, Progress.push]
  · refine Or.inl ⟨_, ?_, Or.inl hplain⟩
    delta readStars
    simp [hsome, hslash, Progress.pushStars, Progress.push]

/-- **Step:** what is read next is spelled by the tokens that are read next, a slash at its end by the last
token. Two stars directly below the start may end the path, and leave the start alone. -/
theorem readFrom_step {previous : Option Char} {c : Char} {rest : List Char}
    (hplain : ∀ d ∈ c :: rest, IsPlain d) (h : Spells ts done)
    (hprevious : previous = some '/' → AfterSlash ts) :
    (∃ ts' previous' read rest', c :: rest = read ++ rest' ∧ read ≠ [] ∧ Spells ts' (done ++ read) ∧
        (previous' = some '/' → AfterSlash ts') ∧
        ∀ fuel, readFrom (fuel + 1) ⟨ts, []⟩ previous (c :: rest) =
          readFrom fuel ⟨ts', []⟩ previous' rest') ∨
      ∀ fuel, readFrom (fuel + 1) ⟨ts, []⟩ previous (c :: rest) = .ok ⟨[.deepStart], []⟩ := by
  by_cases hone : c = '?'
  · subst hone
    exact Or.inl ⟨_, some '?', ['?'], rest, rfl, by simp, h.one, by simp, fun fuel => rfl⟩
  by_cases hstar : c = '*'
  · subst hstar
    by_cases hstars : ∃ more, rest = '*' :: more
    · obtain ⟨more, rfl⟩ := hstars
      obtain ⟨ts', hstars, hspells | ⟨rfl, rfl⟩⟩ | ⟨ts', more', rfl, hstars, hafter, hspells⟩ :=
        readStars_spells h hprevious more
      · exact Or.inl ⟨ts', some '*', ['*', '*'], more, rfl, by simp, hspells, by simp,
          fun fuel => by simp [readFrom, hstars]⟩
      · exact Or.inr fun fuel => by cases fuel <;> simp [readFrom, hstars]
      · exact Or.inl ⟨ts', some '/', ['*', '*', '/'], more', rfl, by simp, hspells, fun _ => hafter,
          fun fuel => by simp [readFrom, hstars]⟩
    · refine Or.inl ⟨_, some '*', ['*'], rest, rfl, by simp, h.many, by simp, fun fuel => ?_⟩
      cases rest with
      | nil => simp [readFrom, Progress.push]
      | cons d more =>
        have hd : d ≠ '*' := fun hd => hstars ⟨more, by rw [hd]⟩
        simp [readFrom, Progress.push, hd]
  -- all others stand for themselves
  have hself := hplain c (List.mem_cons_self ..)
  simp only [IsPlain, List.mem_cons, List.not_mem_nil, or_false, not_or] at hself
  obtain ⟨hclass, hopen, hclose, hescape⟩ := hself
  refine Or.inl ⟨_, some c, [c], rest, rfl, by simp, h.literal c, by simp [AfterSlash], fun fuel => ?_⟩
  by_cases hcomma : c = ','
  · subst hcomma
    simp [readFrom, Progress.comma, Progress.push]
  · simp [readFrom, hone, hstar, hclass, hopen, hclose, hcomma, hescape, Progress.push]

/-- **Run:** the tokens that have been read spell what has been read, and the rest is read to its end. -/
theorem readFrom_spells (fuel : Nat) (previous : Option Char) (hplain : ∀ c ∈ cs, IsPlain c)
    (hfuel : cs.length ≤ fuel) (h : Spells ts done) (hprevious : previous = some '/' → AfterSlash ts) :
    ∃ ts', readFrom fuel ⟨ts, []⟩ previous cs = .ok ⟨ts', []⟩ ∧
      (Spells ts' (done ++ cs) ∨ ts' = [.deepStart]) := by
  induction fuel generalizing ts previous done cs with
  | zero =>
    obtain rfl := List.length_eq_zero_iff.1 (Nat.le_zero.1 hfuel)
    exact ⟨ts, rfl, Or.inl (by rwa [List.append_nil])⟩
  | succ fuel ih =>
    cases cs with
    | nil => exact ⟨ts, rfl, Or.inl (by rwa [List.append_nil])⟩
    | cons c rest =>
      obtain ⟨ts', previous', read, rest', hsplit, hread, hspells, hprevious', hstep⟩ | hend :=
        readFrom_step hplain h hprevious
      · have hpos := List.length_pos_iff.2 hread
        have hlength := congrArg List.length hsplit
        rw [List.length_cons] at hfuel hlength
        rw [List.length_append] at hlength
        have hrest : ∀ d ∈ rest', IsPlain d := fun d hd => hplain d (hsplit ▸ List.mem_append_right _ hd)
        obtain ⟨ts'', hrun, hspells'⟩ := ih previous' hrest (by omega) hspells hprevious'
        exact ⟨ts'', by rw [hstep, hrun], by rwa [hsplit, ← List.append_assoc]⟩
      · exact ⟨_, hend fuel, Or.inr rfl⟩

/-- The glob that finds a path below any folder is read from the path's own text. -/
theorem parse_spells {text : String} {cs : List Char} (htext : text.toList = '/' :: cs)
    (hplain : ∀ c ∈ text.toList, IsPlain c) :
    ∃ ts, parse ("**" ++ text) = .ok ts.reverse ∧ (Spells ts text.toList ∨ ts = [.deepStart]) := by
  have hcs : ∀ c ∈ cs, IsPlain c := fun c hc => hplain c (htext ▸ List.mem_cons_of_mem _ hc)
  obtain ⟨ts, hread, hspells⟩ := readFrom_spells (cs.length + 2) (some '/') hcs
    (by omega) (Spells.start []) fun _ => trivial
  refine ⟨ts, ?_, by simpa [htext] using hspells⟩
  have hglob : ("**" ++ text).toList = '*' :: '*' :: '/' :: cs := by simp [htext]
  have hstart : readFrom (cs.length + 3) ⟨[], []⟩ none ('*' :: '*' :: '/' :: cs) =
      readFrom (cs.length + 2) ⟨[.deepStart], []⟩ (some '/') cs := rfl
  unfold parse
  rw [hglob]
  show (readFrom (cs.length + 3) ⟨[], []⟩ none _ >>= _) = _
  rw [hstart, hread]
  rfl

/-! ### Extensions -/

theorem takeWhile_reverse {α : Type} {p : α → Bool} (before : List α) {x : α} (after : List α)
    (hx : p x = false) (hafter : ∀ y ∈ after, p y = true) :
    ((before ++ x :: after).reverse.takeWhile p).reverse = after := by
  rw [List.reverse_append, List.reverse_cons, List.append_assoc,
    List.takeWhile_append_of_pos fun y hy => hafter y (List.mem_reverse.1 hy)]
  simp [hx]

theorem not_mem_encoded {b : UInt8} {c : Char} (hb : b.toNat < 128) (hc : c.toNat = b.toNat)
    (hnone : c ∉ cs) : b ∉ encoded cs := by
  intro h
  obtain ⟨d, hd, hmem⟩ := List.mem_flatMap.1 h
  have hsame : d.toNat = c.toNat := (Text.toNat_of_mem_encodeChar hb hmem).trans hc.symm
  exact hnone (Char.toNat_inj.1 hsame ▸ hd)

/-- The base name of a path is its name, unless that leads up. -/
theorem baseName_encoded {above name : List Char} (hname : '/' ∉ name) (hup : name ≠ ['.', '.']) :
    baseName (encoded (above ++ '/' :: name)) = encoded name := by
  have hslash : slash ∉ encoded name := not_mem_encoded (by decide) rfl hname
  have hlast : ((encoded (above ++ '/' :: name)).reverse.takeWhile (· != slash)).reverse =
      encoded name := by
    rw [encoded_append, encoded_slash]
    exact takeWhile_reverse _ _ (by simp) fun y hy => by
      simpa using fun he : y = slash => hslash (he ▸ hy)
  have hdots : "..".toUTF8.toList = encoded ['.', '.'] := by rw [Text.toList_toUTF8]; rfl
  unfold baseName
  dsimp only
  rw [hlast, hdots, if_neg (mt Text.encoded_inj.1 hup)]

theorem name_eq_of_extension {above name before tail : List Char} (htail : '/' ∉ tail)
    (hpath : above ++ '/' :: name = before ++ '.' :: tail) : ∃ stem, name = stem ++ '.' :: tail := by
  obtain ⟨between, -, h⟩ | ⟨between, -, h⟩ := List.append_eq_append_iff.1 hpath
  · cases between with
    | nil => simp at h
    | cons c stem => exact ⟨stem, (List.cons.inj h).2⟩
  · cases between with
    | nil => simp at h
    | cons c rest =>
      obtain ⟨-, rfl⟩ := List.cons.inj h
      simp at htail

theorem extensionOf_encoded {above name before tail : List Char} (hname : '/' ∉ name)
    (hup : name ≠ ['.', '.']) (htail : '.' ∉ tail ∧ '/' ∉ tail)
    (hpath : above ++ '/' :: name = before ++ '.' :: tail) :
    extensionOf (encoded (above ++ '/' :: name)) = encoded ('.' :: tail) := by
  have hbase : baseName (encoded (above ++ '/' :: name)) = encoded name := baseName_encoded hname hup
  obtain ⟨stem, rfl⟩ := name_eq_of_extension htail.2 hpath
  have hdot : (46 : UInt8) ∉ encoded tail := not_mem_encoded (by decide) rfl htail.1
  have hbytes : encoded (stem ++ '.' :: tail) = encoded stem ++ 46 :: encoded tail := by
    rw [encoded_append]
    rfl
  have hcontains : (encoded stem ++ 46 :: encoded tail).reverse.contains (46 : UInt8) = true := by simp
  have hlast := takeWhile_reverse (p := (· != (46 : UInt8))) (encoded stem) (x := 46) (encoded tail)
    (by simp) fun y hy => by simpa using fun he : y = 46 => hdot (he ▸ hy)
  unfold extensionOf
  dsimp only
  rw [hbase, hbytes, if_pos hcontains, hlast]
  rfl

theorem Spells.endingFrom (h : Spells ts cs) {held wanted : List Char}
    (he : endingFrom held ts = some wanted) :
    ∃ before tail, cs = before ++ '.' :: tail ∧ wanted = '.' :: tail ++ held ∧ '.' ∉ tail ∧
      '/' ∉ tail := by
  induction h generalizing held with
  | @literal ts cs c h ih =>
    rw [Glob.endingFrom] at he
    split at he
    · cases he
    · rename_i hslash
      split at he
      · rename_i hdot
        subst hdot
        obtain rfl := Option.some.inj he
        exact ⟨cs, [], rfl, rfl, by simp, by simp⟩
      · rename_i hdot
        obtain ⟨before, tail, rfl, rfl, hnodot, hnoslash⟩ := ih he
        exact ⟨before, tail ++ [c], by simp, by simp, by simp [hnodot, Ne.symm hdot],
          by simp [hnoslash, Ne.symm hslash]⟩
  | _ => simp [Glob.endingFrom] at he

/-- **A path that is read as a glob matches itself**, as long as no character of it begins or ends a class,
a group or an escape. -/
theorem isMatch_self {text : String} {above name cs : List Char} (htext : text.toList = '/' :: cs)
    (hplain : ∀ c ∈ text.toList, IsPlain c) (hpath : text.toList = above ++ '/' :: name)
    (hname : '/' ∉ name) (hup : name ≠ ['.', '.']) :
    ∃ tokens, parse ("**" ++ text) = .ok tokens ∧ isMatch tokens text = true := by
  obtain ⟨ts, hparse, hspells⟩ := parse_spells htext hplain
  refine ⟨_, hparse, ?_⟩
  unfold isMatch
  rw [Text.toList_toUTF8, Bool.and_eq_true]
  obtain hspells | rfl := hspells
  · refine ⟨?_, hspells.tokensMatch⟩
    unfold wantedExtension?
    split
    · rfl
    · rw [List.reverse_reverse]
      cases hwanted : endingFrom [] ts with
      | none => rfl
      | some wanted =>
        obtain ⟨before, tail, hbefore, rfl, htail⟩ := hspells.endingFrom hwanted
        have hextension := extensionOf_encoded hname hup htail (hpath ▸ hbefore)
        rw [← hpath] at hextension
        rw [Option.map_some, Text.toUTF8_ofList, List.append_nil, Option.all_some, hextension]
        exact beq_self_eq_true _
  · exact ⟨rfl, rfl⟩

end BulkEdit.Glob

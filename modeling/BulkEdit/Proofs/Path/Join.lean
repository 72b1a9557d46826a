import BulkEdit.Proofs.Path.Place

/-!
# Joining paths

A path that does not start at the root leads on from the place of the path that it is joined to
(`route_join`). In particular a name that is joined to a folder names an entry of the folder
(`route_join_name`).
-/

namespace BulkEdit

theorem Text.pieces_append (mark : Char) (cs more : List Char) :
    pieces mark (cs ++ mark :: more) = pieces mark cs ++ pieces mark more := by
  induction cs with
  | nil => simp [pieces]
  | cons c rest ih =>
    rw [List.cons_append, pieces, pieces, ih]
    split
    · rfl
    · cases hp : pieces mark rest with
      | nil => exact absurd hp (pieces_ne_nil mark rest)
      | cons piece others => rfl

namespace Path

open Route (step)

variable {p q : Path}

/-! ### Texts that go on behind a separator -/

/-- What follows a separator does not change the lead of a text. -/
theorem cutLead_append {cs : List Char} (hne : cs ≠ []) (more : List Char) :
    cutLead (cs ++ '/' :: more) = ((cutLead cs).1, (cutLead cs).2 ++ '/' :: more) := by
  obtain ⟨c, rest, rfl⟩ := List.exists_cons_of_ne_nil hne
  by_cases hroot : c = '/'
  · subst hroot
    rfl
  · by_cases hdot : c = '.'
    · subst hdot
      cases rest with
      | nil => rfl
      | cons d rest =>
        by_cases hd : d = '/'
        · subst hd
          rfl
        · simp [cutLead, hd]
    · simp [cutLead, hroot, hdot]

theorem components_append (hq : q.text.toList ≠ []) {more : List Char}
    (htext : p.text.toList = q.text.toList ++ '/' :: more) :
    p.components = q.components ++ visible (Text.pieces '/' more) := by
  rw [components_eq, components_eq, Path.lead, Path.segments, Path.lead, Path.segments, htext,
    cutLead_append hq, Text.pieces_append, visible_append, List.append_assoc]

/-- Where a relative path leads is decided by its segments, a `.` in front of them or not. -/
theorem foldl_components (hrelative : q.isAbsolute = false) (r : Route) :
    q.components.foldl step r = (visible (Text.pieces '/' q.text.toList)).foldl step r := by
  unfold isAbsolute at hrelative
  rw [components_eq, Path.lead, Path.segments]
  generalize q.text.toList = cs at hrelative ⊢
  unfold cutLead
  split
  · simp at hrelative
  · rfl
  · -- the segment of the `.` cannot be seen
    rename_i rest
    have hdot : visible (Text.pieces '/' ('.' :: '/' :: rest)) = visible (Text.pieces '/' rest) := by
      rw [show '.' :: '/' :: rest = ['.'] ++ '/' :: rest from rfl, Text.pieces_append, visible_append]
      rfl
    have hblank : visible (Text.pieces '/' ('/' :: rest)) = visible (Text.pieces '/' rest) := rfl
    rw [hdot, hblank]
    rfl
  · rfl

/-! ### Joining -/

theorem components_append_slash {before : List Char} (hp : p.text.toList = before ++ ['/'])
    (s : String) :
    (⟨p.text ++ s⟩ : Path).components = p.components ++ visible (Text.pieces '/' s.toList) := by
  have htext : (⟨p.text ++ s⟩ : Path).text.toList = before ++ '/' :: s.toList := by
    rw [String.toList_append, hp, List.append_assoc]
    rfl
  by_cases hroot : before = []
  · subst hroot
    rw [components_eq, components_eq, Path.lead, Path.segments, Path.lead, Path.segments, htext, hp]
    rfl
  · have hbefore : (⟨String.ofList before⟩ : Path).text.toList = before := String.toList_ofList
    have hne : (⟨String.ofList before⟩ : Path).text.toList ≠ [] := by rwa [hbefore]
    have hself : p.text.toList = (⟨String.ofList before⟩ : Path).text.toList ++ '/' :: [] := by
      rw [hbefore, hp]
    rw [components_append hne (by rw [hbefore, htext]), components_append hne hself,
      List.append_assoc]
    rfl

theorem join_of_empty (hrelative : q.isAbsolute = false) (hp : p.text.toList = []) : p.join q = q := by
  unfold join
  rw [hrelative, if_neg (by simp), hp]
  rfl

theorem components_of_empty (hp : p.text.toList = []) : p.components = [] := by
  rw [components_eq, Path.lead, Path.segments, hp]
  rfl

theorem components_join (hrelative : q.isAbsolute = false) (hp : p.text.toList ≠ []) :
    (p.join q).components = p.components ++ visible (Text.pieces '/' q.text.toList) := by
  unfold join
  rw [hrelative, if_neg (by simp)]
  split
  · rename_i hlast
    exact absurd (List.getLast?_eq_none_iff.1 hlast) hp
  · rename_i hlast
    obtain ⟨before, hbefore⟩ := List.getLast?_eq_some_iff.1 hlast
    exact components_append_slash hbefore q.text
  · have htext : (⟨p.text ++ "/" ++ q.text⟩ : Path).text.toList =
        p.text.toList ++ '/' :: q.text.toList := by simp
    exact components_append hp htext

/-- **A relative path leads on** from the place of the path that it is joined to. -/
theorem route_join (hrelative : q.isAbsolute = false) :
    (p.join q).route = q.components.foldl step p.route := by
  by_cases hp : p.text.toList = []
  · rw [join_of_empty hrelative hp, Path.route, Path.route, components_of_empty hp]
    rfl
  · rw [foldl_components hrelative, Path.route, components_join hrelative hp, List.foldl_append]
    rfl

theorem components_of_name {name : String} (hname : (Component.name name).IsName) :
    (⟨name⟩ : Path).components = [.name name] := by
  have hplace : Route.IsPlace [.name name] := ⟨[], [.name name], rfl, by decide, by simpa using hname⟩
  simpa [Route.toPath, Route.text, Component.text] using hplace.components_toPath

theorem isAbsolute_of_name {name : String} (hname : (Component.name name).IsName) :
    (⟨name⟩ : Path).isAbsolute = false := by
  obtain ⟨_, ⟨⟩, -, -, -, hplain⟩ := hname
  unfold isAbsolute
  cases hcs : name.toList with
  | nil => rfl
  | cons c rest =>
    have hc : c ≠ '/' := by
      rintro rfl
      exact hplain (hcs ▸ List.mem_cons_self ..)
    simpa using hc

theorem components_join_name {name : String} (hname : (Component.name name).IsName) :
    (p.join ⟨name⟩).components = p.components ++ [.name name] := by
  have hrelative := isAbsolute_of_name hname
  by_cases hp : p.text.toList = []
  · rw [join_of_empty hrelative hp, components_of_name hname, components_of_empty hp, List.nil_append]
  · obtain ⟨_, ⟨⟩, hne, hdot, hup, hplain⟩ := hname
    rw [components_join hrelative hp, Text.pieces_of_not_mem hplain,
      visible_singleton (by simp [isVisible, hne, hdot])]
    simp [componentOf, hup]

/-- **A name that is joined to a folder** names an entry of it. -/
theorem route_join_name {name : String} (hname : (Component.name name).IsName) :
    (p.join ⟨name⟩).route = p.route ++ [.name name] := by
  rw [route_join (isAbsolute_of_name hname), components_of_name hname]
  rfl

end Path

end BulkEdit

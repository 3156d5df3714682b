import WebSocketsLib.Equiv.Config

/-!
# The order of the lines in a config file

`loadConfig_eq_of_keyLines`: only the order of the key lines within a section makes a difference.

The settings of a section are those of its key lines (`ofGroup_settings`), and what settings of
different sections do can be exchanged (`exchange_applySetting`).
-/

namespace WebSocketsLib

namespace Config

open PartialFold

/-- The sections that `load_config` knows. -/
def sectionNames : List Bytes :=
  [bytes "server", bytes "ssl", bytes "static"]

/-- The key lines of a section, trimmed, among lines that begin in the section `current`. -/
def keyLinesOf (sectionName : Bytes) : Bytes → List Bytes → List Bytes
  | _, [] => []
  | current, line :: lines =>
    match parseLine line with
    | .ignored => keyLinesOf sectionName current lines
    | .header current => keyLinesOf sectionName current lines
    | .setting _ _ =>
      if current = sectionName then trim line :: keyLinesOf sectionName current lines
      else keyLinesOf sectionName current lines

/-- The key lines of a section. -/
def keyLines (sectionName contents : Bytes) : List Bytes :=
  keyLinesOf sectionName [] (getlines contents)

/-! ### The settings of a section -/

/-- The setting on a trimmed key line. -/
def settingAt (sectionName raw : Bytes) : Setting where
  sectionName
  key := trim (raw.take (raw.idxOf 0x3D))
  value := trim (raw.drop (raw.idxOf 0x3D + 1))

variable {line key value sectionName : Bytes}

theorem settingAt_trim (h : parseLine line = .setting key value) (sectionName : Bytes) :
    settingAt sectionName (trim line) = ⟨sectionName, key, value⟩ := by
  rw [parseLine] at h
  split_ifs at h
  cases hidx : (trim line).idxOf? 0x3D with
  | none =>
    rw [hidx] at h
    cases h
  | some pos =>
    rw [hidx] at h
    obtain ⟨rfl, rfl⟩ := Line.setting.inj h
    have hpos : (trim line).idxOf 0x3D = pos := by
      rw [List.idxOf_eq_getD_idxOf?, hidx]
      rfl
    rw [settingAt, hpos]

/-- **The settings of a section** are those of its key lines. -/
theorem ofGroup_settingsOf (current : Bytes) (lines : List Bytes) :
    ofGroup Setting.sectionName sectionName (settingsOf current lines)
      = (keyLinesOf sectionName current lines).map (settingAt sectionName) := by
  induction lines generalizing current with
  | nil => rfl
  | cons line lines ih =>
    rw [settingsOf, keyLinesOf]
    cases hline : parseLine line with
    | ignored => exact ih current
    | header current => exact ih current
    | setting key value =>
      dsimp only
      by_cases hcurrent : current = sectionName
      · subst hcurrent
        rw [if_pos rfl, List.map_cons, ← ih, settingAt_trim hline]
        exact ofGroup_cons_self Setting.sectionName ⟨current, key, value⟩ _
      · rw [if_neg hcurrent, ← ih]
        exact ofGroup_cons_of_ne Setting.sectionName hcurrent _

theorem ofGroup_settings (contents : Bytes) :
    ofGroup Setting.sectionName sectionName (settings contents)
      = (keyLines sectionName contents).map (settingAt sectionName) :=
  ofGroup_settingsOf [] (getlines contents)

/-! ### Settings of different sections -/

/-- The section whose settings have the update. -/
def Update.sectionOf : Update → Option Bytes
  | .address _ => some (bytes "server")
  | .port _ => some (bytes "server")
  | .threads _ => some (bytes "server")
  | .wwwRoot _ => some (bytes "server")
  | .useSsl _ => some (bytes "ssl")
  | .sslCertFile _ => some (bytes "ssl")
  | .sslKeyFile _ => some (bytes "ssl")
  | .mount _ => some (bytes "static")
  | .nothing => none

/-- Updates of different sections set different fields. -/
theorem Update.apply_comm {u u' : Update} (h : u.sectionOf ≠ u'.sectionOf) (cfg : ServerConfig) :
    Update.apply (Update.apply cfg u) u' = Update.apply (Update.apply cfg u') u := by
  cases u <;> cases u' <;> first | rfl | exact absurd rfl h

theorem sectionOf_serverUpdate {u : Update} (h : serverUpdate key value = some u) :
    u = .nothing ∨ u.sectionOf = some (bytes "server") := by
  rw [serverUpdate] at h
  split_ifs at h
  · obtain rfl := Option.some.inj h
    exact Or.inr rfl
  · obtain ⟨p, -, rfl⟩ := Option.map_eq_some_iff.mp h
    exact Or.inr rfl
  · obtain ⟨t, -, rfl⟩ := Option.map_eq_some_iff.mp h
    exact Or.inr rfl
  · obtain rfl := Option.some.inj h
    exact Or.inr rfl
  · obtain rfl := Option.some.inj h
    exact Or.inl rfl

theorem sectionOf_sslUpdate {u : Update} (h : sslUpdate key value = some u) :
    u = .nothing ∨ u.sectionOf = some (bytes "ssl") := by
  rw [sslUpdate] at h
  split_ifs at h
  · obtain ⟨b, -, rfl⟩ := Option.map_eq_some_iff.mp h
    exact Or.inr rfl
  · obtain rfl := Option.some.inj h
    exact Or.inr rfl
  · obtain rfl := Option.some.inj h
    exact Or.inr rfl
  · obtain rfl := Option.some.inj h
    exact Or.inl rfl

theorem sectionOf_staticUpdate {u : Update} (h : staticUpdate key value = some u) :
    u = .nothing ∨ u.sectionOf = some (bytes "static") := by
  rw [staticUpdate] at h
  split_ifs at h
  · obtain ⟨m, -, rfl⟩ := Option.map_eq_some_iff.mp h
    exact Or.inr rfl
  · obtain rfl := Option.some.inj h
    exact Or.inl rfl

/-- The update of a setting is one of its section. -/
theorem sectionOf_of_update {s : Setting} {u : Update} (h : s.update = some u) :
    u = .nothing ∨ u.sectionOf = some s.sectionName := by
  rw [Setting.update] at h
  split_ifs at h with hserver hssl hstatic
  · rw [hserver]
    exact sectionOf_serverUpdate h
  · rw [hssl]
    exact sectionOf_sslUpdate h
  · rw [hstatic]
    exact sectionOf_staticUpdate h
  · obtain rfl := Option.some.inj h
    exact Or.inl rfl

/-- **Settings of different sections** can be exchanged, also if one of them is rejected. -/
theorem exchange_applySetting {s s' : Setting} (h : s.sectionName ≠ s'.sectionName) :
    Exchange applySetting s s' := by
  intro cfg
  unfold applySetting
  cases hu : s.update with
  | none => cases s'.update <;> rfl
  | some u =>
    cases hu' : s'.update with
    | none => rfl
    | some u' =>
      refine congrArg some ?_
      rcases sectionOf_of_update hu with rfl | hname
      · rfl
      rcases sectionOf_of_update hu' with rfl | hname'
      · rfl
      refine Update.apply_comm ?_ cfg
      rw [hname, hname', ne_eq, Option.some_inj]
      exact h

/-- A setting in a section that `load_config` does not know does nothing. -/
theorem applySetting_of_not_mem {s : Setting} (h : s.sectionName ∉ sectionNames)
    (cfg : ServerConfig) : applySetting cfg s = some cfg := by
  simp only [sectionNames, List.mem_cons, List.not_mem_nil, or_false, not_or] at h
  rw [applySetting, Setting.update, if_neg h.1, if_neg h.2.1, if_neg h.2.2]
  rfl

/-! ### Two files -/

/-- The settings in the sections that `load_config` knows. -/
def knownSettings (contents : Bytes) : List Setting :=
  (settings contents).filter fun s => decide (s.sectionName ∈ sectionNames)

theorem loadConfig_eq_knownSettings (filename contents : Bytes) :
    (loadConfig filename (some contents)).toOption
      = (knownSettings contents).foldlM applySetting {} := by
  rw [loadConfig_eq, knownSettings]
  refine (foldlM_filter (fun cfg s hs => ?_) _ _).symm
  exact applySetting_of_not_mem (of_decide_eq_false hs) cfg

theorem ofGroup_knownSettings (contents : Bytes) :
    ofGroup Setting.sectionName sectionName (knownSettings contents)
      = if sectionName ∈ sectionNames
        then ofGroup Setting.sectionName sectionName (settings contents) else [] := by
  split_ifs with hknown
  · rw [ofGroup, ofGroup, knownSettings, List.filter_filter]
    refine List.filter_congr fun s hs => ?_
    rw [Bool.and_eq_left_iff_imp]
    intro hname
    rw [of_decide_eq_true hname]
    exact decide_eq_true hknown
  · refine ofGroup_eq_nil Setting.sectionName fun s hs hname => hknown ?_
    rw [← hname]
    exact of_decide_eq_true (List.mem_filter.mp hs).2

/-- **Only the order of the lines within a section** makes a difference: two files with the same
key lines in each section have the same config, or are both rejected. -/
theorem loadConfig_eq_of_keyLines {contents contents' : Bytes}
    (h : ∀ sectionName ∈ sectionNames,
      keyLines sectionName contents = keyLines sectionName contents') (filename filename' : Bytes) :
    (loadConfig filename (some contents)).toOption
      = (loadConfig filename' (some contents')).toOption := by
  rw [loadConfig_eq_knownSettings, loadConfig_eq_knownSettings]
  refine foldlM_eq_of_groups Setting.sectionName (fun s s' hne => exchange_applySetting hne)
    (fun sectionName => ?_) {}
  rw [ofGroup_knownSettings, ofGroup_knownSettings]
  split_ifs with hknown
  · rw [ofGroup_settings, ofGroup_settings, h sectionName hknown]
  · rfl

/-- A section that is split, another one in between, a comment and a line without `=`. -/
theorem loadConfig_eq_of_keyLines_split :
    (loadConfig [] (some (bytes "[server]\nport=80\nthreads=2\n[ssl]\nuse_ssl=on"))).toOption
      = (loadConfig [] (some (bytes
        "[server]\n#c\n port=80\n[ ssl ]\nuse_ssl=on\nx\n[server]\r\nthreads=2\n"))).toOption :=
  loadConfig_eq_of_keyLines (by decide) [] []

end Config

end WebSocketsLib

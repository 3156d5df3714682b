import WebSocketsLib.Config
import WebSocketsLib.Lib.PartialFold
import WebSocketsLib.Server.Equiv.ContentLength

/-!
# What a config file sets

`numbersTaken_iff`: the numbers of a config file are taken for what they are exactly when none of
them has a sign or text behind it, unless another line is rejected.

* `loadConfig_eq`: loading a file applies its settings one after another; the section of a setting
  is the last one named above it.
* `isSome_loadConfig_iff`, `update_eq_none_iff`: a file is loaded unless one of its settings is
  rejected, and which settings are.
* `port_of_loadConfig`, `threads_of_loadConfig`: the last values count.
-/

namespace WebSocketsLib

namespace Config

open PartialFold

/-! ### Settings -/

/-- A key and a value in a section. -/
structure Setting where
  sectionName : Bytes
  key : Bytes
  value : Bytes
  deriving DecidableEq, Repr

/-- A line of a config file. -/
inductive Line
  | ignored
  | header (sectionName : Bytes)
  | setting (key value : Bytes)

/-- What a line says. -/
def parseLine (line : Bytes) : Line :=
  let raw := trim line
  if raw = [] ∨ raw.head? = some 0x23 then .ignored
  else if raw.head? = some 0x5B ∧ raw.getLast? = some 0x5D then
    .header (trim ((raw.drop 1).take (raw.length - 2)))
  else
    match raw.idxOf? 0x3D with
    | none => .ignored
    | some pos => .setting (trim (raw.take pos)) (trim (raw.drop (pos + 1)))

/-- The settings of lines that begin in a section. -/
def settingsOf : Bytes → List Bytes → List Setting
  | _, [] => []
  | sectionName, line :: lines =>
    match parseLine line with
    | .ignored => settingsOf sectionName lines
    | .header sectionName => settingsOf sectionName lines
    | .setting key value => ⟨sectionName, key, value⟩ :: settingsOf sectionName lines

/-- The settings of a config file. -/
def settings (contents : Bytes) : List Setting :=
  settingsOf [] (getlines contents)

/-- What a setting does to the config. -/
inductive Update
  | address (value : Bytes)
  | port (p : UInt16)
  | threads (t : UInt64)
  | wwwRoot (value : Bytes)
  | useSsl (b : Bool)
  | sslCertFile (value : Bytes)
  | sslKeyFile (value : Bytes)
  | mount (m : StaticMount)
  | nothing

def Update.apply (cfg : ServerConfig) : Update → ServerConfig
  | .address value => { cfg with address := value }
  | .port p => { cfg with port := p }
  | .threads t => { cfg with threads := t }
  | .wwwRoot value => { cfg with wwwRoot := value }
  | .useSsl b => { cfg with useSsl := b }
  | .sslCertFile value => { cfg with sslCertFile := value }
  | .sslKeyFile value => { cfg with sslKeyFile := value }
  | .mount m => { cfg with mounts := cfg.mounts ++ [m] }
  | .nothing => cfg

/-- The two words of a mount. -/
def mountOf (value : Bytes) : Option StaticMount :=
  (extractWord value).bind fun (urlPrefix, rest) =>
    (extractWord rest).map fun (path, _) => StaticMount.mk urlPrefix path

def serverUpdate (key value : Bytes) : Option Update :=
  if key = bytes "address" then some (.address value)
  else if key = bytes "port" then (parseUnsignedShort value).map .port
  else if key = bytes "threads" then (parseSizeT value).map .threads
  else if key = bytes "www_root" then some (.wwwRoot value)
  else some .nothing

def sslUpdate (key value : Bytes) : Option Update :=
  if key = bytes "use_ssl" then (parseBool value).map .useSsl
  else if key = bytes "cert_file" then some (.sslCertFile value)
  else if key = bytes "key_file" then some (.sslKeyFile value)
  else some .nothing

def staticUpdate (key value : Bytes) : Option Update :=
  if key = bytes "mount" then (mountOf value).map .mount else some .nothing

/-- The update of a setting; `none` when it is rejected. -/
def Setting.update (s : Setting) : Option Update :=
  if s.sectionName = bytes "server" then serverUpdate s.key s.value
  else if s.sectionName = bytes "ssl" then sslUpdate s.key s.value
  else if s.sectionName = bytes "static" then staticUpdate s.key s.value
  else some .nothing

def applySetting (cfg : ServerConfig) (s : Setting) : Option ServerConfig :=
  s.update.map (Update.apply cfg)

/-! ### Loading -/

theorem toOption_bind {ε α β : Type} (x : Except ε α) (f : α → Except ε β) :
    (x >>= f).toOption = x.toOption.bind fun a => (f a).toOption := by
  cases x with
  | error _ => rfl
  | ok _ => rfl

variable {cfg : ServerConfig} {key value : Bytes}

theorem serverKey_eq (lineNo : ℕ) :
    (serverKey lineNo cfg key value).toOption
      = (serverUpdate key value).map (Update.apply cfg) := by
  rw [serverKey, serverUpdate]
  split_ifs
  · rfl
  · cases parseUnsignedShort value <;> rfl
  · cases parseSizeT value <;> rfl
  · rfl
  · rfl

theorem sslKey_eq (lineNo : ℕ) :
    (sslKey lineNo cfg key value).toOption = (sslUpdate key value).map (Update.apply cfg) := by
  rw [sslKey, sslUpdate]
  split_ifs
  · cases parseBool value <;> rfl
  · rfl
  · rfl
  · rfl

theorem staticKey_eq (lineNo : ℕ) :
    (staticKey lineNo cfg key value).toOption
      = (staticUpdate key value).map (Update.apply cfg) := by
  rw [staticKey, staticUpdate, ← mountOf]
  split_ifs
  · cases mountOf value <;> rfl
  · rfl

/-- **One line**: its setting is applied to the config. -/
theorem loadLine_eq (s : LoadState) (line : Bytes) : (loadLine s line).toOption =
    match parseLine line with
    | .ignored => some { s with lineNo := s.lineNo + 1 }
    | .header sectionName => some { s with lineNo := s.lineNo + 1, sectionName }
    | .setting key value => (applySetting s.cfg ⟨s.sectionName, key, value⟩).map fun cfg =>
        { s with lineNo := s.lineNo + 1, cfg } := by
  rw [loadLine, parseLine]
  dsimp only
  by_cases hignored : trim line = [] ∨ (trim line).head? = some 0x23
  · rw [if_pos hignored, if_pos hignored]
    rfl
  · rw [if_neg hignored, if_neg hignored]
    by_cases hheader : (trim line).head? = some 0x5B ∧ (trim line).getLast? = some 0x5D
    · rw [if_pos hheader, if_pos hheader]
      rfl
    rw [if_neg hheader, if_neg hheader]
    cases (trim line).idxOf? 0x3D with
    | none => rfl
    | some pos =>
      dsimp only
      rw [applySetting, Setting.update]
      dsimp only
      split_ifs
      · rw [toOption_bind, serverKey_eq]
        cases serverUpdate _ _ <;> rfl
      · rw [toOption_bind, sslKey_eq]
        cases sslUpdate _ _ <;> rfl
      · rw [toOption_bind, staticKey_eq]
        cases staticUpdate _ _ <;> rfl
      · rfl

theorem foldlM_loadLine (lines : List Bytes) (s : LoadState) :
    ((lines.foldlM loadLine s).toOption).map LoadState.cfg
      = (settingsOf s.sectionName lines).foldlM applySetting s.cfg := by
  induction lines generalizing s with
  | nil => rfl
  | cons line lines ih =>
    rw [List.foldlM_cons, toOption_bind, loadLine_eq, settingsOf]
    cases parseLine line with
    | ignored => exact ih _
    | header sectionName => exact ih _
    | setting key value =>
      dsimp only
      rw [List.foldlM_cons]
      cases applySetting s.cfg ⟨s.sectionName, key, value⟩ with
      | none => rfl
      | some cfg => exact ih _

/-- **Loading a config file** applies its settings one after another. -/
theorem loadConfig_eq (filename contents : Bytes) :
    (loadConfig filename (some contents)).toOption
      = (settings contents).foldlM applySetting {} := by
  rw [settings, ← foldlM_loadLine (getlines contents) {}, loadConfig, toOption_bind]
  cases ((getlines contents).foldlM loadLine {}).toOption <;> rfl

/-! ### Rejected settings -/

/-- A setting that makes `load_config` throw. -/
def Rejected (s : Setting) : Prop :=
  s.sectionName = bytes "server" ∧ s.key = bytes "port" ∧
      (∀ n, stoul s.value = some n → 65535 < n) ∨
    s.sectionName = bytes "server" ∧ s.key = bytes "threads" ∧ stoull s.value = none ∨
    s.sectionName = bytes "ssl" ∧ s.key = bytes "use_ssl" ∧ parseBool s.value = none ∨
    s.sectionName = bytes "static" ∧ s.key = bytes "mount" ∧ mountOf s.value = none

theorem parseUnsignedShort_eq_none_iff :
    parseUnsignedShort value = none ↔ ∀ n, stoul value = some n → 65535 < n := by
  rw [parseUnsignedShort]
  cases stoul value with
  | none => simp
  | some n => simp

theorem parseSizeT_eq_none_iff : parseSizeT value = none ↔ stoull value = none := by
  rw [parseSizeT]
  cases stoull value with
  | none => simp
  | some v => simp

theorem serverUpdate_eq_none_iff : serverUpdate key value = none ↔
    key = bytes "port" ∧ parseUnsignedShort value = none ∨
      key = bytes "threads" ∧ parseSizeT value = none := by
  have hport_threads : bytes "port" ≠ bytes "threads" := by decide
  have haddress_ne : bytes "address" ≠ bytes "port" ∧ bytes "address" ≠ bytes "threads" := by
    decide
  rw [serverUpdate]
  split_ifs with haddress hport hthreads hroot
  · simp [haddress, haddress_ne]
  · simp [hport, hport_threads]
  · simp [hthreads, hport_threads.symm]
  · simp [hport, hthreads]
  · simp [hport, hthreads]

theorem sslUpdate_eq_none_iff :
    sslUpdate key value = none ↔ key = bytes "use_ssl" ∧ parseBool value = none := by
  rw [sslUpdate]
  split_ifs with hssl hcert hkey
  · simp [hssl]
  · simp [hssl]
  · simp [hssl]
  · simp [hssl]

theorem staticUpdate_eq_none_iff :
    staticUpdate key value = none ↔ key = bytes "mount" ∧ mountOf value = none := by
  rw [staticUpdate]
  split_ifs with hmount
  · simp [hmount]
  · simp [hmount]

/-- **The settings that are rejected.** -/
theorem update_eq_none_iff (s : Setting) : s.update = none ↔ Rejected s := by
  have hssl : bytes "ssl" ≠ bytes "server" := by decide
  have hstatic : bytes "static" ≠ bytes "server" ∧ bytes "static" ≠ bytes "ssl" := by decide
  rw [Setting.update, Rejected, ← parseUnsignedShort_eq_none_iff, ← parseSizeT_eq_none_iff]
  split_ifs with h₁ h₂ h₃
  · rw [serverUpdate_eq_none_iff, h₁]
    simp [hssl.symm, hstatic.1.symm]
  · rw [sslUpdate_eq_none_iff, h₂]
    simp [hssl, hstatic.2.symm]
  · rw [staticUpdate_eq_none_iff, h₃]
    simp [hstatic.1, hstatic.2]
  · simp [h₁, h₂, h₃]

/-- **A config file is loaded** if none of its settings is rejected. -/
theorem isSome_loadConfig_iff (filename contents : Bytes) :
    (loadConfig filename (some contents)).toOption.isSome = true ↔
      ∀ s ∈ settings contents, ¬ Rejected s := by
  rw [loadConfig_eq]
  refine isSome_foldlM_iff (fun cfg s => ?_) _ _
  rw [applySetting, Option.isSome_map, ← update_eq_none_iff, Option.isSome_iff_ne_none]

/-! ### Numbers -/

/-- The values of a key of `[server]`, in their order. -/
def serverValues (key : Bytes) (ss : List Setting) : List Bytes :=
  ss.filterMap fun s =>
    if s.sectionName = bytes "server" ∧ s.key = key then some s.value else none

theorem mem_serverValues {ss : List Setting} {key value : Bytes} :
    value ∈ serverValues key ss ↔ ⟨bytes "server", key, value⟩ ∈ ss := by
  rw [serverValues, List.mem_filterMap]
  constructor
  · rintro ⟨⟨sectionName, key', value'⟩, hmem, hvalue⟩
    dsimp only at hvalue
    split_ifs at hvalue with h
    obtain rfl := Option.some.inj hvalue
    rwa [← h.1, ← h.2]
  · intro hmem
    exact ⟨_, hmem, if_pos ⟨rfl, rfl⟩⟩

/-- **What is converted** is a decimal number if it has digits only. -/
theorem isDecimal_of_stoull {v : Bytes} (hdigits : ∀ c ∈ v, isDigit c = true) {n used : ℕ}
    (h : stoull v = some (n, used)) : IsDecimal v n := by
  have hhead : ∀ c ∈ v.head?, isSpace c = false ∧ c ≠ 0x2D ∧ c ≠ 0x2B := fun c hc =>
    isDigit_ne (hdigits c (List.mem_of_mem_head? hc))
  have hspaces : v.takeWhile isSpace = [] ∧ v.dropWhile isSpace = v := by
    cases v with
    | nil => exact ⟨rfl, rfl⟩
    | cons c v =>
      rw [List.takeWhile_cons, List.dropWhile_cons, (hhead c rfl).1]
      exact ⟨rfl, rfl⟩
  have hminus : ¬ v.head? = some 0x2D := fun hc => (hhead _ hc).2.1 rfl
  have hplus : ¬ v.head? = some 0x2B := fun hc => (hhead _ hc).2.2 rfl
  have hall : v.takeWhile isDigit = v := List.takeWhile_eq_self_iff.mpr hdigits
  rw [stoull] at h
  simp only [hspaces.2, hminus, hplus, or_self, if_false, List.drop_zero, hall] at h
  split_ifs at h with hbad
  obtain ⟨hne, hlt⟩ := not_or.mp hbad
  obtain ⟨rfl, -⟩ := Prod.mk.inj (Option.some.inj h)
  exact ⟨hne, hdigits, rfl, Nat.not_le.mp hlt⟩

/-- The port that a setting sets. -/
def portOf (s : Setting) : Option UInt16 :=
  match s.update with
  | some (.port p) => some p
  | _ => none

/-- The number of threads that a setting sets. -/
def threadsOf (s : Setting) : Option UInt64 :=
  match s.update with
  | some (.threads t) => some t
  | _ => none

theorem foldlM_of_loadConfig {filename contents : Bytes}
    (h : loadConfig filename (some contents) = .ok cfg) :
    (settings contents).foldlM applySetting {} = some cfg := by
  rw [← loadConfig_eq filename, h]
  rfl

/-- **The last port counts.** -/
theorem port_of_loadConfig {filename contents : Bytes}
    (h : loadConfig filename (some contents) = .ok cfg) :
    cfg.port = (((settings contents).filterMap portOf).getLast?).getD 8080 := by
  refine get_of_foldlM ServerConfig.port (fun cfg s cfg' hstep => ?_) (foldlM_of_loadConfig h)
  obtain ⟨u, hu, rfl⟩ := Option.map_eq_some_iff.mp hstep
  rw [portOf, hu]
  cases u <;> rfl

/-- **The last number of threads counts.** -/
theorem threads_of_loadConfig {filename contents : Bytes}
    (h : loadConfig filename (some contents) = .ok cfg) :
    cfg.threads = (((settings contents).filterMap threadsOf).getLast?).getD 8 := by
  refine get_of_foldlM ServerConfig.threads (fun cfg s cfg' hstep => ?_) (foldlM_of_loadConfig h)
  obtain ⟨u, hu, rfl⟩ := Option.map_eq_some_iff.mp hstep
  rw [threadsOf, hu]
  cases u <;> rfl

/-! ### The numbers of a file -/

/-- Outside `[server]` there are no numbers. -/
theorem update_of_ne_server {s : Setting} (h : s.sectionName ≠ bytes "server") :
    portOf s = none ∧ threadsOf s = none := by
  rw [portOf, threadsOf, Setting.update, if_neg h, sslUpdate, staticUpdate]
  split_ifs
  · cases parseBool s.value <;> exact ⟨rfl, rfl⟩
  · exact ⟨rfl, rfl⟩
  · exact ⟨rfl, rfl⟩
  · exact ⟨rfl, rfl⟩
  · cases mountOf s.value <;> exact ⟨rfl, rfl⟩
  · exact ⟨rfl, rfl⟩
  · exact ⟨rfl, rfl⟩

theorem portOf_eq (s : Setting) : portOf s =
    if s.sectionName = bytes "server" ∧ s.key = bytes "port" then parseUnsignedShort s.value
    else none := by
  split_ifs with h
  · have haddress : bytes "port" ≠ bytes "address" := by decide
    rw [portOf, Setting.update, if_pos h.1, serverUpdate, h.2, if_neg haddress, if_pos rfl]
    cases parseUnsignedShort s.value <;> rfl
  · by_cases hserver : s.sectionName = bytes "server"
    · have hkey : s.key ≠ bytes "port" := fun hkey => h ⟨hserver, hkey⟩
      rw [portOf, Setting.update, if_pos hserver, serverUpdate, if_neg hkey]
      split_ifs
      · rfl
      · cases parseSizeT s.value <;> rfl
      · rfl
      · rfl
    · exact (update_of_ne_server hserver).1

theorem threadsOf_eq (s : Setting) : threadsOf s =
    if s.sectionName = bytes "server" ∧ s.key = bytes "threads" then parseSizeT s.value
    else none := by
  split_ifs with h
  · have hne : bytes "threads" ≠ bytes "address" ∧ bytes "threads" ≠ bytes "port" := by decide
    rw [threadsOf, Setting.update, if_pos h.1, serverUpdate, h.2, if_neg hne.1, if_neg hne.2,
      if_pos rfl]
    cases parseSizeT s.value <;> rfl
  · by_cases hserver : s.sectionName = bytes "server"
    · have hkey : s.key ≠ bytes "threads" := fun hkey => h ⟨hserver, hkey⟩
      rw [threadsOf, Setting.update, if_pos hserver, serverUpdate, if_neg hkey]
      split_ifs
      · rfl
      · cases parseUnsignedShort s.value <;> rfl
      · rfl
      · rfl
    · exact (update_of_ne_server hserver).2

/-- **The last number** of a list of values that are all read as they are. -/
theorem lastNumber {γ : Type} {key : Bytes} {parse : Bytes → Option γ} {ofNat : ℕ → γ}
    {ss : List Setting} {put : Setting → Option γ}
    (hput : ∀ s, put s =
      if s.sectionName = bytes "server" ∧ s.key = key then parse s.value else none)
    (hparse : ∀ v ∈ serverValues key ss, parse v = some (ofNat (digitsValue v))) :
    (ss.filterMap put).getLast?
      = (serverValues key ss).getLast?.map fun v => ofNat (digitsValue v) := by
  rw [← List.getLast?_map, serverValues, List.map_filterMap]
  congr 1
  refine List.filterMap_congr fun s hs => ?_
  rw [hput]
  split_ifs with h
  · refine hparse _ (mem_serverValues.mpr ?_)
    rwa [← h.1, ← h.2]
  · rfl

/-- A port with digits only. -/
theorem parseUnsignedShort_of_digits (hdigits : ∀ c ∈ value, isDigit c = true)
    (h : parseUnsignedShort value ≠ none) :
    (∃ n ≤ 65535, IsDecimal value n) ∧
      parseUnsignedShort value = some (UInt16.ofNat (digitsValue value)) := by
  rw [ne_eq, parseUnsignedShort_eq_none_iff] at h
  simp only [not_forall, Nat.not_lt] at h
  obtain ⟨n, hn, hle⟩ := h
  obtain ⟨⟨m, used⟩, hstoull, rfl⟩ := Option.map_eq_some_iff.mp hn
  have hdecimal := isDecimal_of_stoull hdigits hstoull
  refine ⟨⟨m, hle, hdecimal⟩, ?_⟩
  rw [parseUnsignedShort, hn]
  dsimp only
  rw [if_neg (Nat.not_lt.mpr hle), hdecimal.2.2.1]

/-- A number of threads with digits only. -/
theorem parseSizeT_of_digits (hdigits : ∀ c ∈ value, isDigit c = true)
    (h : parseSizeT value ≠ none) :
    (∃ n, IsDecimal value n) ∧ parseSizeT value = some (UInt64.ofNat (digitsValue value)) := by
  rw [ne_eq, parseSizeT_eq_none_iff] at h
  obtain ⟨⟨m, used⟩, hstoull⟩ := Option.ne_none_iff_exists'.mp h
  have hdecimal := isDecimal_of_stoull hdigits hstoull
  refine ⟨⟨m, hdecimal⟩, ?_⟩
  rw [parseSizeT, hstoull, hdecimal.2.2.1]

/-- What a file that is loaded says about its numbers. -/
structure Taken (cfg : ServerConfig) (ss : List Setting) : Prop where
  ports : ∀ v ∈ serverValues (bytes "port") ss, ∃ n ≤ 65535, IsDecimal v n
  threads : ∀ v ∈ serverValues (bytes "threads") ss, ∃ n, IsDecimal v n
  lastPort : cfg.port.toNat
    = ((serverValues (bytes "port") ss).getLast?.map digitsValue).getD 8080
  lastThreads : cfg.threads.toNat
    = ((serverValues (bytes "threads") ss).getLast?.map digitsValue).getD 8

/-- If the file is loaded, its numbers are decimal, and the last ones count. -/
def NumbersTaken (contents : Bytes) : Prop :=
  ∀ filename cfg, loadConfig filename (some contents) = .ok cfg → Taken cfg (settings contents)

/-- The values of the numbers in a file have digits only. -/
def DigitsOnly (ss : List Setting) : Prop :=
  ∀ key ∈ [bytes "port", bytes "threads"], ∀ v ∈ serverValues key ss, ∀ c ∈ v, isDigit c = true

/-- **Numbers with digits only** are taken for what they are. -/
theorem taken_of_digitsOnly {filename contents : Bytes}
    (haccepted : ∀ s ∈ settings contents, ¬ Rejected s) (hdigits : DigitsOnly (settings contents))
    (hload : loadConfig filename (some contents) = .ok cfg) : Taken cfg (settings contents) := by
  have hport : ∀ v ∈ serverValues (bytes "port") (settings contents),
      (∃ n ≤ 65535, IsDecimal v n) ∧
        parseUnsignedShort v = some (UInt16.ofNat (digitsValue v)) := by
    intro v hv
    refine parseUnsignedShort_of_digits (hdigits _ List.mem_cons_self v hv) fun hnone => ?_
    refine haccepted _ (mem_serverValues.mp hv) ?_
    exact Or.inl ⟨rfl, rfl, parseUnsignedShort_eq_none_iff.mp hnone⟩
  have hthreads : ∀ v ∈ serverValues (bytes "threads") (settings contents),
      (∃ n, IsDecimal v n) ∧ parseSizeT v = some (UInt64.ofNat (digitsValue v)) := by
    intro v hv
    refine parseSizeT_of_digits (hdigits _ (by simp) v hv) fun hnone => ?_
    refine haccepted _ (mem_serverValues.mp hv) ?_
    exact Or.inr (Or.inl ⟨rfl, rfl, parseSizeT_eq_none_iff.mp hnone⟩)
  refine ⟨fun v hv => (hport v hv).1, fun v hv => (hthreads v hv).1, ?_, ?_⟩
  · rw [port_of_loadConfig hload, lastNumber portOf_eq fun v hv => (hport v hv).2]
    cases hlast : (serverValues (bytes "port") (settings contents)).getLast? with
    | none => rfl
    | some v =>
      obtain ⟨n, hle, -, -, rfl, -⟩ := (hport v (List.mem_of_getLast? hlast)).1
      exact UInt16.toNat_ofNat_of_lt' (Nat.lt_succ_of_le hle)
  · rw [threads_of_loadConfig hload, lastNumber threadsOf_eq fun v hv => (hthreads v hv).2]
    cases hlast : (serverValues (bytes "threads") (settings contents)).getLast? with
    | none => rfl
    | some v =>
      obtain ⟨n, -, -, rfl, hlt⟩ := (hthreads v (List.mem_of_getLast? hlast)).1
      exact UInt64.toNat_ofNat_of_lt' hlt

/-- **Numeric settings are taken only when they are numbers**, exactly when all of them have digits
only or a line is rejected. -/
theorem numbersTaken_iff (contents : Bytes) : NumbersTaken contents ↔
    (∃ s ∈ settings contents, Rejected s) ∨ DigitsOnly (settings contents) := by
  constructor
  · intro htaken
    by_cases hrejected : ∃ s ∈ settings contents, Rejected s
    · exact Or.inl hrejected
    · simp only [not_exists, not_and] at hrejected
      have hsome := (isSome_loadConfig_iff [] contents).mpr hrejected
      cases hload : loadConfig [] (some contents) with
      | error e =>
        rw [hload] at hsome
        cases hsome
      | ok cfg =>
        obtain ⟨hports, hthreads, -, -⟩ := htaken [] cfg hload
        refine Or.inr fun key hkey v hv => ?_
        rcases List.mem_pair.mp hkey with rfl | rfl
        · obtain ⟨n, -, hdecimal⟩ := hports v hv
          exact hdecimal.2.1
        · obtain ⟨n, hdecimal⟩ := hthreads v hv
          exact hdecimal.2.1
  · intro h filename cfg hload
    have hsome : (loadConfig filename (some contents)).toOption.isSome = true := by
      rw [hload]
      rfl
    have haccepted := (isSome_loadConfig_iff filename contents).mp hsome
    have hdigits : DigitsOnly (settings contents) := by
      refine h.resolve_left ?_
      rintro ⟨s, hs, hrejected⟩
      exact haccepted s hs hrejected
    exact taken_of_digitsOnly haccepted hdigits hload

/-- A port with text behind it. -/
theorem not_numbersTaken_text : ¬ NumbersTaken (bytes "[server]\nport = 80abc\n") := by
  intro h
  have htaken := h [] { port := 80 } (by rfl)
  obtain ⟨n, -, hdecimal⟩ := htaken.ports (bytes "80abc") (by decide)
  exact absurd (hdecimal.2.1 0x61 (by decide)) (by decide)

end Config

end WebSocketsLib

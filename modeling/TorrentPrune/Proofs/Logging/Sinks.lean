import TorrentPrune.Cli.App
import TorrentPrune.Proofs.Path.Relative

/-!
# Which records reach which sink

Once the logging system is configured from settings whose layouts are accepted, whose sizes are
integers and whose run log path holds no NUL character, its sinks are the console, when it is on,
at the console's level, then the run log, when it is on and its file could be opened, at the run
log's level. From then on every record is handed to exactly the sinks whose level it reaches, each
sink once, record after record in the order they are emitted; nothing waits to be written when
the system shuts down. With the settings the command line builds, the run log takes every record
of level `INFO` or above, whatever the console's level.

The settings matter: a layout that is refused (`plain` holds no directive) makes configuring fall
back to an emergency console, which writes every record of level `INFO` or above whatever the
console's level, and no run log.
-/

namespace TorrentPrune.Path

/-! ### Paths without NUL characters

No call on the volume accepts a path that holds a NUL character. The run log's path is made
absolute, and its directory taken, before any call; neither adds a NUL character. -/

/-- An element of one of the joined lists is an element of the joined list. -/
theorem mem_intercalate_of_mem {α : Type} {sep l : List α} {a : α} (ha : a ∈ l) :
    ∀ {ls : List (List α)}, l ∈ ls → a ∈ sep.intercalate ls
  | [], hl => absurd hl List.not_mem_nil
  | [_], hl => by simpa [List.mem_singleton.mp hl] using ha
  | l₁ :: l₂ :: ls, hl => by
    rw [List.intercalate_cons_cons]
    rcases List.mem_cons.mp hl with rfl | hl
    · exact List.mem_append_left _ (List.mem_append_left _ ha)
    · exact List.mem_append_right _ (mem_intercalate_of_mem ha hl)

/-- An element of joined lists is one of the separator or of one of the lists. -/
theorem mem_of_mem_intercalate {α : Type} {sep : List α} {a : α} :
    ∀ {ls : List (List α)}, a ∈ sep.intercalate ls → a ∈ sep ∨ ∃ l ∈ ls, a ∈ l
  | [], h => by simp at h
  | [l], h => .inr ⟨l, List.mem_singleton_self l, by simpa using h⟩
  | l₁ :: l₂ :: ls, h => by
    rw [List.intercalate_cons_cons] at h
    rcases List.mem_append.mp h with h | h
    · rcases List.mem_append.mp h with h | h
      · exact .inr ⟨l₁, List.mem_cons_self, h⟩
      · exact .inl h
    · rcases mem_of_mem_intercalate h with h | ⟨l, hl, h⟩
      · exact .inl h
      · exact .inr ⟨l, List.mem_cons_of_mem _ hl, h⟩

/-- A piece of a path holds only characters of the path. -/
theorem mem_of_mem_pieces {p x : String} {a : Char} (hx : x ∈ pieces p) (ha : a ∈ x.toList) :
    a ∈ p.toList := by
  simp only [pieces, List.mem_map] at hx
  obtain ⟨l, hl, rfl⟩ := hx
  rw [← @List.intercalate_splitOn Char p.toList _ _ '/']
  exact mem_intercalate_of_mem (by simpa using ha) hl

/-- Normalisation keeps only components it reads. -/
theorem mem_foldl_normStep {k : Nat} {x : String} : ∀ (comps acc : List String),
    x ∈ comps.foldl (normStep k) acc → x ∈ acc ∨ x ∈ comps
  | [], _, h => .inl h
  | comp :: comps, acc, h => by
    rcases mem_foldl_normStep comps _ h with h | h
    · unfold normStep at h
      split at h
      · exact .inl h
      · split at h
        · rcases List.mem_cons.mp h with rfl | h
          · exact .inr List.mem_cons_self
          · exact .inl h
        · exact .inl (List.mem_of_mem_drop h)
    · exact .inr (List.mem_cons_of_mem _ h)

/-- Normalisation adds no character but separators and dots. -/
theorem mem_normalize {p : String} {a : Char} (ha : a ∈ (Path.normalize p).toList) :
    a = '/' ∨ a = '.' ∨ a ∈ p.toList := by
  -- an empty result is written `.`
  have hdot : a ∈ ".".toList → a = '.' := by simp
  by_cases hp : p.isEmpty = true
  · simp only [Path.normalize, hp, if_true] at ha
    exact .inr (.inl (hdot ha))
  rw [normalize_eq (by simpa using hp)] at ha
  dsimp only at ha
  split at ha
  · exact .inr (.inl (hdot ha))
  · simp only [String.toList_append, String.toList_ofList, String.toList_intercalate,
      List.mem_append, List.mem_replicate] at ha
    rcases ha with ⟨-, rfl⟩ | ha
    · exact .inl rfl
    rcases mem_of_mem_intercalate ha with ha | ⟨l, hl, ha⟩
    · exact .inl (by simpa using ha)
    obtain ⟨x, hx, rfl⟩ := List.mem_map.mp hl
    rcases mem_foldl_normStep _ _ (List.mem_reverse.mp hx) with hx | hx
    · simp at hx
    · exact .inr (.inr (mem_of_mem_pieces hx ha))

/-- A path without NUL characters has none once made absolute. -/
theorem nul_not_mem_absolute {path : String} (h : Char.ofNat 0 ∉ path.toList) :
    Char.ofNat 0 ∉ (absolute "/" path).toList := by
  have hjoined : Char.ofNat 0 ∉ (if isAbs path then path else join "/" path).toList := by
    split
    · exact h
    · exact Fs.nul_not_mem_join (by simp) h
  intro hmem
  rcases mem_normalize hmem with hc | hc | hc
  · exact absurd hc (by decide)
  · exact absurd hc (by decide)
  · exact hjoined hc

/-- The directory part of a path without NUL characters has none. -/
theorem nul_not_mem_dirname {p : String} (h : Char.ofNat 0 ∉ p.toList) :
    Char.ofNat 0 ∉ (dirname p).toList := by
  have hpre := dirname_toList_prefix p
  exact fun hm ↦ h (hpre.subset hm)

end TorrentPrune.Path

namespace TorrentPrune.Fs

open TorrentPrune.Path

/-- A computation that does not fail on a NUL character, followed by ones that do not, does
not. -/
theorem bind_ne_nulByte {α β : Type} {x : Except CallError α} {f : α → Except CallError β}
    (hx : x ≠ .error .nulByte) (hf : ∀ a, f a ≠ .error .nulByte) :
    (x >>= f) ≠ .error .nulByte := by
  cases x with
  | error e =>
    intro h
    change Except.error e = Except.error .nulByte at h
    cases Except.error.inj h
    exact hx rfl
  | ok a => exact hf a

namespace Volume

variable {v : Volume} {cwd path : String}

/-- A path without trailing separators keeps no character the path lacks. -/
theorem nul_not_mem_dropTrailingSlashes (h : Char.ofNat 0 ∉ path.toList) :
    Char.ofNat 0 ∉ (dropTrailingSlashes path).toList := by
  unfold dropTrailingSlashes
  dsimp only
  split
  · exact h
  · simp only [String.toList_ofList, List.mem_reverse]
    exact fun hm ↦ h (List.mem_reverse.mp ((List.dropWhile_suffix _).subset hm))

/-- Resolving fails on a NUL character only when the path holds one. -/
theorem resolve_ne_nulByte {fl : Bool} (h : Char.ofNat 0 ∉ path.toList) :
    v.resolve cwd path fl ≠ .error .nulByte := by
  unfold resolve
  rw [if_neg (by simpa using h)]
  split <;> simp

/-- Writing at a location never fails on a NUL character. -/
theorem setContent_ne_nulByte {loc : Loc} {f : List UInt8 → List UInt8} :
    v.setContent loc path f ≠ .error .nulByte := by
  unfold setContent failWith
  split
  · split <;> simp
  · simp
  · split <;> simp

/-- Opening a path without NUL characters for appending does not fail on one. -/
theorem openAppend_ne_nulByte (h : Char.ofNat 0 ∉ path.toList) :
    v.openAppend cwd path ≠ .error .nulByte := by
  unfold openAppend
  refine bind_ne_nulByte (resolve_ne_nulByte h) fun loc ↦ ?_
  exact bind_ne_nulByte setContent_ne_nulByte fun _ ↦ by simp [pure, Except.pure]

/-- Making a directory at a path without NUL characters does not fail on one. -/
theorem mkdir_ne_nulByte (h : Char.ofNat 0 ∉ path.toList) :
    v.mkdir cwd path ≠ .error .nulByte := by
  unfold mkdir
  intro heq
  split at heq
  · simp only [pure_bind] at heq
    split at heq
    · simp [failWith] at heq
    · split at heq <;> simp [failWith, pure, Except.pure] at heq
  · rename_i hr
    exact resolve_ne_nulByte (nul_not_mem_dropTrailingSlashes h) hr
  · simp [throw, throwThe, MonadExceptOf.throw, bind, Except.bind] at heq

/-- Making a directory and its missing parents, each of them a directory part of a path without
NUL characters, does not fail on one; by induction on the fuel, which bounds the parents. -/
theorem makedirs_go_ne_nulByte {existOk : Bool} :
    ∀ (fuel : Nat) (v : Volume) {p : String}, Char.ofNat 0 ∉ p.toList →
      makedirs.go cwd existOk fuel v p ≠ .error .nulByte
  | 0, v, p, h => mkdir_ne_nulByte h
  | fuel + 1, v, p, h => by
    have h₀ : Char.ofNat 0 ∉ (split p).1.toList := nul_not_mem_dirname h
    have h₁ : Char.ofNat 0 ∉ (split (split p).1).1.toList := nul_not_mem_dirname h₀
    rw [makedirs.go]
    rcases hs : split p with ⟨head₀, tail₀⟩
    rcases ht : (if tail₀.isEmpty = true then split head₀ else (head₀, tail₀)) with
      ⟨head, tail⟩
    have hhead : Char.ofNat 0 ∉ head.toList := by
      rw [hs] at h₀ h₁
      split at ht
      · rwa [ht] at h₁
      · cases ht
        exact h₀
    dsimp only
    simp only [ht]
    have hgo : makedirs.go cwd existOk fuel v head ≠ .error .nulByte :=
      makedirs_go_ne_nulByte fuel v hhead
    have hmk : ∀ w : Volume, w.mkdir cwd p ≠ .error .nulByte := fun w ↦ mkdir_ne_nulByte h
    -- four branches: the parent made, found made meanwhile, failed, or not needed; each of them
    -- but a failure of the parent then makes the directory itself
    split
    on_goal 1 => split
    on_goal 1 => split
    all_goals refine bind_ne_nulByte ?_ fun w ↦ ?_
    all_goals first
      | exact hgo
      | split
        · simp [pure, Except.pure]
        · split
          · simp [pure, Except.pure]
          · rename_i e hmkw
            split
            · simp [pure, Except.pure]
            · exact hmkw ▸ hmk w
      | simp [pure, Except.pure]

/-- Making the directories of a path without NUL characters does not fail on one. -/
theorem makedirs_ne_nulByte {existOk : Bool} (h : Char.ofNat 0 ∉ path.toList) :
    v.makedirs cwd path existOk ≠ .error .nulByte :=
  makedirs_go_ne_nulByte _ _ h

end Volume

end TorrentPrune.Fs

namespace TorrentPrune.Logging

open TorrentPrune.Fs TorrentPrune.Path

/-! ### Handing records to sinks -/

/-- Hand a record to a sink. -/
def LogSystem.deliver (s : LogSystem) (d : Sink × LogRecord) : LogSystem := s.emitTo d.1 d.2

/-- Whether a sink takes a record: the record's level reaches the sink's. -/
def Sink.takes (k : Sink) (r : LogRecord) : Bool := decide ((k.level : Int) ≤ r.level)

/-- What sinks `ks` are handed by records `rs`: record after record, each to the sinks that take
it, in their order. -/
def deliveries (ks : List Sink) (rs : List LogRecord) : List (Sink × LogRecord) :=
  rs.flatMap fun r ↦ (ks.filter (·.takes r)).map (·, r)

/-- A sink writes to standard error or the volume and changes nothing else. -/
theorem emitTo_frame (s : LogSystem) (k : Sink) (r : LogRecord) :
    s.emitTo k r =
      { s with volume := (s.emitTo k r).volume, errText := (s.emitTo k r).errText } := by
  unfold LogSystem.emitTo
  split
  · split <;> rfl
  · split
    · rfl
    · split <;> rfl

/-- A system that feeds the sinks `ks` through its queue: there is no emergency console, and the
system's level is below no sink's level, every one of them positive. -/
structure Feeds (s : LogSystem) (ks : List Sink) : Prop where
  sinks : s.sinks = some ks
  emergency : s.emergency = false
  level : ∀ k ∈ ks, s.rootLevel ≤ k.level ∧ 0 < k.level

/-- Handing a record to a sink keeps the system feeding the same sinks. -/
theorem Feeds.emitTo {s : LogSystem} {ks : List Sink} (h : Feeds s ks) (k : Sink) (r : LogRecord) :
    Feeds (s.emitTo k r) ks := by
  rw [emitTo_frame]
  exact ⟨h.sinks, h.emergency, h.level⟩

/-- Handing a record to several sinks keeps the system feeding the same sinks. -/
theorem Feeds.foldl_emitTo {ks : List Sink} (r : LogRecord) :
    ∀ (ks' : List Sink) {s : LogSystem}, Feeds s ks →
      Feeds (ks'.foldl (fun s k ↦ s.emitTo k r) s) ks
  | [], _, h => h
  | k :: ks', _, h => Feeds.foldl_emitTo r ks' (h.emitTo k r)

/-- Handing a record to each sink of a list whose level it reaches is handing it to the sinks that
take it. -/
theorem foldl_emitTo_takes (r : LogRecord) : ∀ (ks : List Sink) (s : LogSystem),
    ks.foldl (fun s k ↦ if (k.level : Int) ≤ r.level then s.emitTo k r else s) s =
      (ks.filter (·.takes r)).foldl (fun s k ↦ s.emitTo k r) s
  | [], _ => rfl
  | k :: ks, s => by
    by_cases hk : (k.level : Int) ≤ r.level <;> simp [Sink.takes, hk, foldl_emitTo_takes r ks]

/-- One record: a system that feeds sinks hands the record to each sink that takes it, in their
order, and does nothing else. A record below the system's level, or of a level that is not
positive, is taken by no sink. -/
theorem emit_of_feeds {s : LogSystem} {ks : List Sink} (h : Feeds s ks) (r : LogRecord) :
    s.emit r = (ks.filter (·.takes r)).foldl (fun s k ↦ s.emitTo k r) s := by
  unfold LogSystem.emit
  rw [h.sinks]
  by_cases hskip : (decide (r.level ≤ 0) || decide (r.level < (s.rootLevel : Int))) = true
  · have hnone : ks.filter (·.takes r) = [] := by
      refine List.filter_eq_nil_iff.mpr fun k hk ↦ ?_
      have hlevel := h.level k hk
      simp only [Bool.or_eq_true, decide_eq_true_eq] at hskip
      simp only [Sink.takes, decide_eq_true_eq, Int.not_le]
      omega
    rw [if_pos hskip, hnone]
    rfl
  · have hfeeds := Feeds.foldl_emitTo r (ks.filter (·.takes r)) h
    rw [if_neg hskip]
    simp only [foldl_emitTo_takes r ks s, hfeeds.emergency, hfeeds.sinks, Option.isNone_some,
      Bool.false_and, Bool.false_eq_true, if_false]

/-- Logging a record keeps the system feeding the same sinks. -/
theorem Feeds.emit {s : LogSystem} {ks : List Sink} (h : Feeds s ks) (r : LogRecord) :
    Feeds (s.emit r) ks := by
  rw [emit_of_feeds h]
  exact Feeds.foldl_emitTo r _ h

/-- A run of records: a system that feeds sinks hands the records to them as `deliveries` lists,
record after record in emission order, each record once to each sink that takes it. -/
theorem foldl_emit_of_feeds (ks : List Sink) :
    ∀ (rs : List LogRecord) {s : LogSystem}, Feeds s ks →
      rs.foldl LogSystem.emit s = (deliveries ks rs).foldl LogSystem.deliver s
  | [], _, _ => rfl
  | r :: rs, s, h => by
    rw [List.foldl_cons, foldl_emit_of_feeds ks rs (h.emit r), emit_of_feeds h r]
    simp only [deliveries, List.flatMap_cons, List.foldl_append, List.foldl_map]
    rfl

/-! ### The sinks of sound settings -/

/-- Whether the run log at `path` opens on a volume: its directory, when missing, is made with
its parents, and its file then opens for appending. -/
def runLogOpensOn (v : Volume) (path : String) : Bool :=
  let full := absolute "/" path
  let parent := dirname full
  let made := if !parent.isEmpty && !v.exists "/" parent then v.makedirs "/" parent true else .ok v
  match made with
  | .ok v => (v.openAppend "/" full).toBool
  | .error _ => false

/-- Opening the run log at a path without NUL characters, with an integer size and count, gives
the run log exactly when it opens, and writes at most to standard error and the volume. -/
theorem openRunLog_sound (s : LogSystem) {c : LogConfig} {path : String} {m b : Int}
    (hnul : Char.ofNat 0 ∉ path.toList) (hm : c.maxBytes = some m) (hb : c.backupCount = some b) :
    ∃ s', openRunLog s c path =
        .ok (s',
          if runLogOpensOn s.volume path then some ⟨absolute "/" path, m, b⟩ else none) ∧
      s' = { s with volume := s'.volume, errText := s'.errText } := by
  have hfull := nul_not_mem_absolute hnul
  have hparent := nul_not_mem_dirname hfull
  unfold openRunLog runLogOpensOn
  dsimp only
  split
  · rename_i heq
    split at heq
    · exact absurd heq (Volume.makedirs_ne_nulByte hparent)
    · cases heq
  · rename_i e heq
    simp only [heq]
    exact ⟨_, rfl, rfl⟩
  · rename_i v heq
    simp only [heq, hm, hb]
    split
    · rename_i hopen
      exact absurd hopen (Volume.openAppend_ne_nulByte hfull)
    -- the file opened, or failed with a system error that is reported
    all_goals
      rename_i hopen
      simp only [hopen]
      exact ⟨_, rfl, rfl⟩

/-- Settings from which the system is configured without falling back: each layout in use is
text that is accepted, and a run log that is on has an integer size and count and a path without
NUL characters. -/
structure LogConfig.Sound (c : LogConfig) : Prop where
  consoleLayout : c.console = true → ∃ l, c.consoleLayout = some l ∧ acceptsLayout l = true
  fileLayout : c.hasRunLog = true → ∃ l, c.fileLayout = some l ∧ acceptsLayout l = true
  maxBytes : c.hasRunLog = true → ∃ m, c.maxBytes = some m
  backupCount : c.hasRunLog = true → ∃ b, c.backupCount = some b
  noNul : ∀ path, c.logFile = some path → Char.ofNat 0 ∉ path.toList

/-- Whether the run log of settings is on and opens on a volume. -/
def LogConfig.runLogOpens (c : LogConfig) (v : Volume) : Bool :=
  c.logFile.any fun path ↦ !path.isEmpty && runLogOpensOn v path

/-- The console's sink of settings, at the console's level. -/
def LogConfig.consoleSink (c : LogConfig) : Sink :=
  ⟨.console, c.consoleLevel, c.consoleLayout.getD ""⟩

/-- The run log's sink of settings: the file made absolute, at the run log's level. -/
def LogConfig.runLogSink (c : LogConfig) : Sink :=
  ⟨.runLog ⟨absolute "/" (c.logFile.getD ""), c.maxBytes.getD 0, c.backupCount.getD 0⟩,
    c.runLogLevel, c.fileLayout.getD ""⟩

/-- Whether a sink writes to the run log. -/
def SinkTarget.isRunLog : SinkTarget → Bool
  | .console => false
  | .runLog _ => true

@[simp] theorem LogConfig.consoleSink_level (c : LogConfig) :
    c.consoleSink.level = c.consoleLevel := by
  dsimp only [LogConfig.consoleSink]

@[simp] theorem LogConfig.consoleSink_target (c : LogConfig) : c.consoleSink.target = .console :=
  rfl

@[simp] theorem LogConfig.runLogSink_level (c : LogConfig) :
    c.runLogSink.level = c.runLogLevel := by
  dsimp only [LogConfig.runLogSink]

@[simp] theorem LogConfig.runLogSink_isRunLog (c : LogConfig) :
    c.runLogSink.target.isRunLog = true :=
  rfl

/-- The sinks settings give on a volume: the console, when it is on; then the run log, when it is
on and opens. -/
def LogConfig.sinksOn (c : LogConfig) (v : Volume) : List Sink :=
  (if c.console then [c.consoleSink] else []) ++ if c.runLogOpens v then [c.runLogSink] else []

/-- The sinks of settings are the console's, when it is on, and the run log's, when it opens. -/
theorem LogConfig.mem_sinksOn {c : LogConfig} {v : Volume} {k : Sink} :
    k ∈ c.sinksOn v ↔
      (c.console = true ∧ k = c.consoleSink) ∨ (c.runLogOpens v = true ∧ k = c.runLogSink) := by
  unfold LogConfig.sinksOn
  cases c.console <;> cases c.runLogOpens v <;>
    simp only [List.mem_append, List.mem_singleton, List.not_mem_nil, Bool.false_eq_true, if_false,
      if_true, true_and, false_and, or_false, false_or]

/-- Building the sinks of sound settings gives the sinks they ask for, and writes at most to
standard error and the volume. -/
theorem buildSinks_sound (s : LogSystem) {c : LogConfig} (hc : c.Sound) :
    ∃ s', buildSinks s c = .ok (s', c.sinksOn s.volume) ∧
      s' = { s with volume := s'.volume, errText := s'.errText } := by
  -- a console that is on has an accepted layout
  have hlayout :
      c.console = true → checkedLayout s c.consoleLayout = .ok (c.consoleLayout.getD "") := by
    intro hcon
    obtain ⟨l, hl, hacc⟩ := hc.consoleLayout hcon
    simp [checkedLayout, hl, hacc]
  unfold buildSinks LogConfig.sinksOn LogConfig.runLogOpens LogConfig.consoleSink
    LogConfig.runLogSink
  rcases hfile : c.logFile with _ | path
  · cases hcon : c.console <;> simp [hcon, hlayout, bind, Except.bind, pure, Except.pure]
  by_cases hempty : path.isEmpty = true
  · cases hcon : c.console <;> simp [hcon, hlayout, hempty, bind, Except.bind, pure, Except.pure]
  -- the run log is on: its layout is accepted, its size and count are integers
  have hrun : c.hasRunLog = true := by simp [LogConfig.hasRunLog, hfile, hempty]
  obtain ⟨l, hl, hacc⟩ := hc.fileLayout hrun
  obtain ⟨m, hm⟩ := hc.maxBytes hrun
  obtain ⟨b, hb⟩ := hc.backupCount hrun
  have hfileLayout : checkedLayout s (some l) = .ok l := by simp [checkedLayout, hacc]
  obtain ⟨s', hopen, hframe⟩ := openRunLog_sound s (hc.noNul path hfile) hm hb
  cases hcon : c.console <;> cases hopens : runLogOpensOn s.volume path <;>
    simp [hcon, hlayout, hempty, hfileLayout, hopen, hopens, hl, hm, hb, bind, Except.bind, pure,
      Except.pure] <;>
    exact hframe

/-! ### Levels of the sinks -/

/-- A level name reads as a positive level when its fallback is one. -/
theorem parseLevel_pos {name : String} {fallback : Nat} (h : 0 < fallback) :
    0 < parseLevel name fallback := by
  unfold parseLevel
  cases hl : levelTable.lookup (Text.upper (Text.trim name)) with
  | none => exact h
  | some n =>
    obtain ⟨l₁, l₂, htable, -⟩ := List.lookup_eq_some_iff.mp hl
    have hmem : (_, n) ∈ levelTable := htable ▸ List.mem_append_right l₁ List.mem_cons_self
    have hpos : ∀ p ∈ levelTable, 0 < p.2 := by decide
    exact hpos _ hmem

/-- The console's level is positive. -/
theorem LogConfig.consoleLevel_pos (c : LogConfig) : 0 < c.consoleLevel :=
  parseLevel_pos (by decide)

/-- The run log's level is positive. -/
theorem LogConfig.runLogLevel_pos (c : LogConfig) : 0 < c.runLogLevel := by
  unfold LogConfig.runLogLevel
  split
  · exact parseLevel_pos c.consoleLevel_pos
  · exact c.consoleLevel_pos

/-- The system's level is at most the console's, when the console is on. -/
theorem LogConfig.rootLevel_le_consoleLevel (c : LogConfig) (h : c.console = true) :
    c.rootLevel ≤ c.consoleLevel := by
  unfold LogConfig.rootLevel
  cases c.hasRunLog
  · simp [h]
  · simp only [h, if_true, List.cons_append, List.nil_append, List.foldl_cons, List.foldl_nil]
    omega

/-- The system's level is at most the run log's, when the run log is on. -/
theorem LogConfig.rootLevel_le_runLogLevel (c : LogConfig) (h : c.hasRunLog = true) :
    c.rootLevel ≤ c.runLogLevel := by
  unfold LogConfig.rootLevel
  cases c.console
  · simp [h]
  · simp only [h, if_true, List.cons_append, List.nil_append, List.foldl_cons, List.foldl_nil]
    omega

/-- A run log that opens is on. -/
theorem LogConfig.hasRunLog_of_runLogOpens {c : LogConfig} {v : Volume}
    (h : c.runLogOpens v = true) : c.hasRunLog = true := by
  unfold LogConfig.runLogOpens at h
  unfold LogConfig.hasRunLog
  cases hfile : c.logFile with
  | none => simp [hfile] at h
  | some path =>
    simp only [hfile, Option.any_some, Bool.and_eq_true] at h ⊢
    exact h.1

/-- Every sink of settings is at a positive level, and the system's level does not exceed it. -/
theorem LogConfig.level_of_mem_sinksOn {c : LogConfig} {v : Volume} {k : Sink}
    (hk : k ∈ c.sinksOn v) : c.rootLevel ≤ k.level ∧ 0 < k.level := by
  rcases LogConfig.mem_sinksOn.mp hk with ⟨hcon, rfl⟩ | ⟨hopens, rfl⟩
  · rw [LogConfig.consoleSink_level]
    exact ⟨c.rootLevel_le_consoleLevel hcon, c.consoleLevel_pos⟩
  · rw [LogConfig.runLogSink_level]
    exact ⟨c.rootLevel_le_runLogLevel (c.hasRunLog_of_runLogOpens hopens), c.runLogLevel_pos⟩

/-- Configuring an unconfigured system, or forcing it, from sound settings: the system keeps the
sinks the settings give on its volume, or none when they give none, has no emergency console,
and passes the lowest level among the sinks that are on. -/
theorem configure_sound {s : LogSystem} {force : Bool}
    (hfresh : s.configured = false ∨ force = true) {c : LogConfig} (hc : c.Sound) :
    (s.configure c force).sinks =
        (if c.sinksOn s.volume = [] then none else some (c.sinksOn s.volume)) ∧
      (s.configure c force).emergency = false ∧
      (s.configure c force).rootLevel = c.rootLevel := by
  have hguard : (s.configured && !force) = false := by rcases hfresh with h | h <;> simp [h]
  obtain ⟨s', hbuild, hframe⟩ :=
    buildSinks_sound { s with rootLevel := c.rootLevel, sinks := none, emergency := false } hc
  dsimp only at hbuild hframe
  unfold LogSystem.configure
  rw [if_neg (by simp [hguard])]
  dsimp only
  rw [hbuild]
  cases hks : c.sinksOn s.volume with
  | nil => rw [hframe]; simp
  | cons k ks => rw [hframe]; simp

/-- Configuring from sound settings that give sinks makes the system feed them. -/
theorem configure_feeds {s : LogSystem} {force : Bool}
    (hfresh : s.configured = false ∨ force = true) {c : LogConfig} (hc : c.Sound)
    (hne : c.sinksOn s.volume ≠ []) : Feeds (s.configure c force) (c.sinksOn s.volume) := by
  obtain ⟨hsinks, hemergency, hroot⟩ := configure_sound hfresh hc
  refine ⟨by rw [hsinks, if_neg hne], hemergency, fun k hk ↦ ?_⟩
  rw [hroot]
  exact LogConfig.level_of_mem_sinksOn hk

/-! ### Which sink takes which record -/

/-- The console takes a record exactly when it is on and the record reaches its level. -/
theorem LogConfig.console_takes_iff (c : LogConfig) (v : Volume) (r : LogRecord) :
    (∃ k ∈ c.sinksOn v, k.target = .console ∧ k.takes r = true) ↔
      c.console = true ∧ (c.consoleLevel : Int) ≤ r.level := by
  constructor
  · rintro ⟨k, hk, hconsole, htakes⟩
    rcases LogConfig.mem_sinksOn.mp hk with ⟨hcon, rfl⟩ | ⟨-, rfl⟩
    · simp only [Sink.takes, LogConfig.consoleSink_level] at htakes
      exact ⟨hcon, of_decide_eq_true htakes⟩
    · cases hconsole
  · rintro ⟨hcon, hlevel⟩
    refine ⟨c.consoleSink, LogConfig.mem_sinksOn.mpr (.inl ⟨hcon, rfl⟩), c.consoleSink_target, ?_⟩
    simp only [Sink.takes, LogConfig.consoleSink_level]
    exact decide_eq_true hlevel

/-- The run log takes a record exactly when it is on, its file opens, and the record reaches its
level. -/
theorem LogConfig.runLog_takes_iff (c : LogConfig) (v : Volume) (r : LogRecord) :
    (∃ k ∈ c.sinksOn v, k.target.isRunLog = true ∧ k.takes r = true) ↔
      c.runLogOpens v = true ∧ (c.runLogLevel : Int) ≤ r.level := by
  constructor
  · rintro ⟨k, hk, hrun, htakes⟩
    rcases LogConfig.mem_sinksOn.mp hk with ⟨-, rfl⟩ | ⟨hopens, rfl⟩
    · cases hrun
    · simp only [Sink.takes, LogConfig.runLogSink_level] at htakes
      exact ⟨hopens, of_decide_eq_true htakes⟩
  · rintro ⟨hopens, hlevel⟩
    refine ⟨c.runLogSink, LogConfig.mem_sinksOn.mpr (.inr ⟨hopens, rfl⟩),
      c.runLogSink_isRunLog, ?_⟩
    simp only [Sink.takes, LogConfig.runLogSink_level]
    exact decide_eq_true hlevel

/-- Without sinks, logging writes to standard error only. -/
theorem emit_of_sinks_none {s : LogSystem} (hs : s.sinks = none) (r : LogRecord) :
    ∃ t, s.emit r = { s with errText := t } := by
  obtain ⟨rootLevel, sinks, emergency, configured, volume, errText, clock⟩ := s
  subst hs
  unfold LogSystem.emit
  split
  · exact ⟨errText, rfl⟩
  · dsimp only
    split <;> (try split) <;> (try split) <;> exact ⟨_, rfl⟩

/-- Without sinks, a run of records leaves the volume as it is. -/
theorem foldl_emit_of_sinks_none :
    ∀ (rs : List LogRecord) {s : LogSystem}, s.sinks = none →
      (rs.foldl LogSystem.emit s).volume = s.volume
  | [], _, _ => rfl
  | r :: rs, s, hs => by
    obtain ⟨t, ht⟩ := emit_of_sinks_none hs r
    rw [List.foldl_cons, ht]
    exact foldl_emit_of_sinks_none rs hs

/-! ### The command line's settings -/

/-- A level name found in the table reads as its level, whatever the fallback. -/
theorem parseLevel_of_lookup {name : String} {n fallback : Nat}
    (h : levelTable.lookup (Text.upper (Text.trim name)) = some n) :
    parseLevel name fallback = n := by
  simp [parseLevel, h]

/-- The command line's run log takes debug records at level `DEBUG` and informational ones
otherwise: never fewer than the records of level `INFO` and above. -/
theorem runLogConfig_runLogLevel_le (level : String) (logFile : Option String) :
    (Cli.runLogConfig level logFile).runLogLevel ≤ infoLevel := by
  unfold LogConfig.runLogLevel Cli.runLogConfig
  dsimp only
  split
  · rw [parseLevel_of_lookup (n := 10) (by decide)]
    decide
  · rw [parseLevel_of_lookup (n := 20) (by decide)]
    decide

/-- The command line's settings are sound when the run log's path holds no NUL character. -/
theorem runLogConfig_sound (level : String) {logFile : Option String}
    (h : ∀ path, logFile = some path → Char.ofNat 0 ∉ path.toList) :
    (Cli.runLogConfig level logFile).Sound where
  consoleLayout _ := ⟨_, rfl, by decide⟩
  fileLayout _ := ⟨_, rfl, by decide⟩
  maxBytes _ := ⟨_, rfl⟩
  backupCount _ := ⟨_, rfl⟩
  noNul := h

/-! ### Delivery by level -/

/-- Once configured from sound settings, the logging system hands every record to exactly the
sinks whose level it reaches: the console when it is on, the run log when it is on and its file
opened. Each sink is handed each record once, record after record in emission order; without
sinks the volume is left as it is; shutting down writes nothing more. With the command line's
settings, a run log that opened takes every record of level `INFO` or above, whatever the
console's level. -/
theorem configure_delivers_by_level {s : LogSystem} {force : Bool}
    (hfresh : s.configured = false ∨ force = true) {c : LogConfig} (hc : c.Sound)
    (rs : List LogRecord) :
    let s₁ := s.configure c force
    let ks := c.sinksOn s.volume
    let s₂ := rs.foldl LogSystem.emit s₁
    (∀ r, (∃ k ∈ ks, k.target = .console ∧ k.takes r = true) ↔
        c.console = true ∧ (c.consoleLevel : Int) ≤ r.level) ∧
      (∀ r, (∃ k ∈ ks, k.target.isRunLog = true ∧ k.takes r = true) ↔
        c.runLogOpens s.volume = true ∧ (c.runLogLevel : Int) ≤ r.level) ∧
      (ks ≠ [] → s₂ = (deliveries ks rs).foldl LogSystem.deliver s₁) ∧
      (ks = [] → s₂.volume = s₁.volume) ∧
      s₂.shutdown.volume = s₂.volume ∧ s₂.shutdown.errText = s₂.errText ∧
      (∀ level logFile, c = Cli.runLogConfig level logFile → c.runLogOpens s.volume = true →
        ∀ r, (infoLevel : Int) ≤ r.level →
          ∃ k ∈ ks, k.target.isRunLog = true ∧ k.takes r = true) := by
  intro s₁ ks s₂
  refine ⟨c.console_takes_iff s.volume, c.runLog_takes_iff s.volume,
    fun hne ↦ foldl_emit_of_feeds ks rs (configure_feeds hfresh hc hne), fun hnil ↦ ?_,
    rfl, rfl, ?_⟩
  · have hsinks : s₁.sinks = none := by
      rw [(configure_sound hfresh hc).1, if_pos hnil]
    exact foldl_emit_of_sinks_none rs hsinks
  · rintro level logFile rfl hopens r hr
    have hlevel := runLogConfig_runLogLevel_le level logFile
    refine (LogConfig.runLog_takes_iff _ s.volume r).mpr ⟨hopens, ?_⟩
    omega

/-- The command line's settings at level `ERROR`, with a run log, on an empty volume. -/
theorem configure_delivers_by_level_cli :
    let s := LogSystem.fresh Volume.empty "2024-01-01 00:00:00"
    let c := Cli.runLogConfig "ERROR" (some "/logs/run.log")
    let rs : List LogRecord := [⟨"dircomp.core", 20, "hello"⟩]
    (s.configured = false ∨ false = true) ∧ c.Sound ∧
      let s₁ := s.configure c false
      let ks := c.sinksOn s.volume
      let s₂ := rs.foldl LogSystem.emit s₁
      (∀ r, (∃ k ∈ ks, k.target = .console ∧ k.takes r = true) ↔
          c.console = true ∧ (c.consoleLevel : Int) ≤ r.level) ∧
        (∀ r, (∃ k ∈ ks, k.target.isRunLog = true ∧ k.takes r = true) ↔
          c.runLogOpens s.volume = true ∧ (c.runLogLevel : Int) ≤ r.level) ∧
        (ks ≠ [] → s₂ = (deliveries ks rs).foldl LogSystem.deliver s₁) ∧
        (ks = [] → s₂.volume = s₁.volume) ∧
        s₂.shutdown.volume = s₂.volume ∧ s₂.shutdown.errText = s₂.errText ∧
        (∀ level logFile, c = Cli.runLogConfig level logFile → c.runLogOpens s.volume = true →
          ∀ r, (infoLevel : Int) ≤ r.level →
            ∃ k ∈ ks, k.target.isRunLog = true ∧ k.takes r = true) :=
  have hc := runLogConfig_sound "ERROR" fun path (h : some "/logs/run.log" = some path) ↦ by
    cases h
    decide
  ⟨.inl rfl, hc, configure_delivers_by_level (.inl rfl) hc _⟩

/-- Falling back leaves the emergency console at level `INFO` and no sink, and writes only to
standard error. -/
theorem fallBack_eq (s : LogSystem) :
    ∃ t, s.fallBack =
      { s with rootLevel := infoLevel, sinks := none, emergency := true, errText := t } := by
  unfold LogSystem.fallBack
  obtain ⟨t, ht⟩ := emit_of_sinks_none
    (s := { s with rootLevel := infoLevel, sinks := none, emergency := true }) rfl
    ⟨"", warningLevel, fallbackMessage⟩
  exact ⟨t, ht⟩

/-- A layout without a directive is refused: configuring falls back to the emergency console,
with no sink, and no record reaches the run log. -/
theorem configure_plain_layout_falls_back (v : Volume) (clock : String) (rs : List LogRecord) :
    let s := (LogSystem.fresh v clock).configure
      { console := false, logFile := some "run.log", fileLayout := some "plain" } false
    s.emergency = true ∧ s.sinks = none ∧ (rs.foldl LogSystem.emit s).volume = v := by
  have hplain : acceptsLayout "plain" = false := by decide
  have hname : "run.log".isEmpty = false := by decide
  simp only [LogSystem.configure, LogSystem.fresh, buildSinks, checkedLayout, hplain, hname, bind,
    Except.bind, pure, Except.pure, Bool.false_and, Bool.false_eq_true, if_false]
  obtain ⟨t, ht⟩ := fallBack_eq _
  rw [ht]
  exact ⟨rfl, rfl, foldl_emit_of_sinks_none rs rfl⟩

/-- The run log at `run.log` with the layout `plain`, on an empty volume: the record of level
`INFO` is written nowhere on the volume. -/
theorem configure_falls_back_on_plain_layout :
    let s := (LogSystem.fresh Volume.empty "2024-01-01 00:00:00").configure
      { console := false, logFile := some "run.log", fileLayout := some "plain" } false
    s.emergency = true ∧ s.sinks = none ∧
      ([⟨"dircomp.core", 20, "hello"⟩].foldl LogSystem.emit s).volume = Volume.empty :=
  configure_plain_layout_falls_back _ _ _

end TorrentPrune.Logging

import TorrentPrune.Proofs.Prune.Keeping
import TorrentPrune.Proofs.Manifest.Declared
import TorrentPrune.Proofs.Text.Names
import TorrentPrune.Run.Engine

/-!
# A sync keeps what a torrent declares

A sync run changes the volume only by one pass over the target with the manifest that the torrent
declares (`runSync_volume`). A file or link below the target whose byte names are the leading
components of a declared path therefore stays, and so does every directory holding it, provided
those components are well-formed UTF-8 (`sync_keeps_declared_entries`): the file system and the
manifest then give the names the same text.

Well-formedness cannot be dropped. A declared component that is not UTF-8 is read lossily into
the manifest, while the file system keeps its bytes in the entry's name; the two texts differ, and
the pass removes the entry (`sync_removes_undecodable_declared_name`).
-/

namespace TorrentPrune.Run

open TorrentPrune.Fs TorrentPrune.Path TorrentPrune.Prune TorrentPrune.Text TorrentPrune.Bencode

/-- A pause the clock takes changes only the pauses noted and the clock: the volume, the refused
calls and the processes holding files stay as they were. -/
theorem Host.sleep_frame {h h' : Host} {s : Seconds} (hs : h.sleep s = .ok h') :
    h'.volume = h.volume ∧ h'.refusals = h.refusals ∧ h'.holders = h.holders := by
  unfold Host.sleep at hs
  cases hc : h.clock with
  | recorder =>
    simp only [hc, Except.ok.injEq] at hs
    subst hs
    exact ⟨rfl, rfl, rfl⟩
  | monotonic now =>
    -- the conversion and the deadline may refuse the pause; a pause taken moves only the clock
    cases hn : s.nanos with
    | error f => simp [hc, hn] at hs
    | ok ns =>
      simp only [hc, hn] at hs
      split at hs
      · cases hs
      · cases hs
        exact ⟨rfl, rfl, rfl⟩

/-- A pause for the delay changes the journal, the pauses noted and the clock only. -/
theorem pauseFor_frame {h h' : Host} {delay : Seconds} (hp : pauseFor h delay = .ok h') :
    h'.volume = h.volume ∧ h'.refusals = h.refusals ∧ h'.holders = h.holders := by
  unfold pauseFor at hp
  split at hp
  · -- a record is noted first, then the clock takes the pause
    exact Host.sleep_frame (h := h.note _) hp
  · cases hp
    exact ⟨rfl, rfl, rfl⟩

/-- Emitting a record leaves the volume as it is. -/
@[simp] theorem Host.volume_note (h : Host) (r : Logging.LogRecord) : (h.note r).volume = h.volume :=
  rfl

/-- Emitting a record leaves the refused calls as they are. -/
@[simp] theorem Host.refusals_note (h : Host) (r : Logging.LogRecord) :
    (h.note r).refusals = h.refusals := rfl

/-- The steps of a sync leave the volume as it was, or are a pass over it with the manifest of the
metadata read from the torrent's bytes. -/
theorem syncSteps_volume {h h' : Host} {data : Bytes} {target : String} {o : SyncOptions}
    {res : Except RunError (Manifest × Report × Option Unlock.UnlockReport)}
    (hs : syncSteps h data target o = .ok (h', res)) :
    h'.volume = h.volume ∨
      ∃ val rest m journal report, parse data = .ok (val, rest) ∧
        extractManifest (Metadata.ofValue val) = .ok m ∧
        reconcile h.volume h.refusals m target o.minDepth o.dryRun = .ok (h'.volume, journal, report) := by
  unfold syncSteps at hs
  cases hsafe : ensureSafe h.volume "/" target o.minDepth with
  | error g =>
    cases g with
    | nulByte => simp [hsafe] at hs
    | shallow e =>
      simp only [hsafe, Except.ok.injEq, Prod.mk.injEq] at hs
      exact .inl (hs.1 ▸ rfl)
  | ok u =>
    simp only [hsafe] at hs
    cases hp : parse data with
    | error f =>
      cases f with
      | tooManyDigits n => simp [hp] at hs
      | malformed e =>
        simp only [hp, Except.ok.injEq, Prod.mk.injEq] at hs
        exact .inl (hs.1 ▸ rfl)
    | ok vr =>
      obtain ⟨val, rest⟩ := vr
      simp only [hp] at hs
      cases hm : extractManifest (Metadata.ofValue val) with
      | error e =>
        simp only [hm, Except.ok.injEq, Prod.mk.injEq] at hs
        left
        rw [← hs.1]
        split <;> rfl
      | ok m =>
        -- releasing locks and emitting records change neither the volume nor the refusals
        simp only [hm, apply_ite Prod.fst, apply_ite Host.volume, apply_ite Host.refusals,
          Host.volume_note, Host.refusals_note, ite_self] at hs
        cases hrec : reconcile h.volume h.refusals m target o.minDepth o.dryRun with
        | error e =>
          cases e with
          | escape e => simp [hrec] at hs
          | run e =>
            simp only [hrec, Except.ok.injEq, Prod.mk.injEq] at hs
            left
            rw [← hs.1]
            split <;> simp [apply_ite Host.volume]
        | ok res =>
          obtain ⟨w, journal, report⟩ := res
          simp only [hrec, Except.ok.injEq, Prod.mk.injEq] at hs
          right
          refine ⟨val, rest, m, journal, report, rfl, hm, ?_⟩
          rw [← hs.1]
          exact hrec

/-- A sync run leaves the volume as it was, or is a pass over it with the manifest of the metadata
read from the torrent's bytes. -/
theorem runSync_volume {h h' : Host} {data : Bytes} {target torrentPath : String}
    {o : SyncOptions} {r : SyncResult} (hrun : runSync h data target o torrentPath = .ok (h', r)) :
    h'.volume = h.volume ∨
      ∃ val rest m journal report, parse data = .ok (val, rest) ∧
        extractManifest (Metadata.ofValue val) = .ok m ∧
        reconcile h.volume h.refusals m target o.minDepth o.dryRun = .ok (h'.volume, journal, report) := by
  unfold runSync at hrun
  cases hp : pauseFor h o.delay with
  | error f => simp [hp] at hrun
  | ok h₀ =>
    obtain ⟨hv₀, hr₀, -⟩ := pauseFor_frame hp
    simp only [hp, syncPaused] at hrun
    cases hs : syncSteps h₀ data target o with
    | error e => simp [hs, bind, Except.bind] at hrun
    | ok res =>
      obtain ⟨h₁, steps⟩ := res
      -- the run's host is the steps' host, with records added
      have hvol : h'.volume = h₁.volume := by
        simp only [hs, bind, Except.bind, pure, Except.pure] at hrun
        split at hrun
        · have hh : _ = h' := congrArg Prod.fst (Except.ok.inj hrun)
          rw [← hh]
          rfl
        · have hh : _ = h' := congrArg Prod.fst (Except.ok.inj hrun)
          rw [← hh]
          rfl
      rw [hvol, ← hv₀, ← hr₀]
      exact syncSteps_volume hs

/-- A sync never removes a file or link below the target whose byte names are the leading
components of a path the torrent declares (the whole path, or a proper leading part of it) when
those components are well-formed UTF-8, nor any directory holding it. The names are as the file
system gives them (`decodeName`); the target is the directory its absolute path leads to. -/
theorem sync_keeps_declared_entries {h h' : Host} {data : Bytes} {target torrentPath : String}
    {o : SyncOptions} {r : SyncResult} {base : Loc} {cs bs : List Bytes} {x : Node}
    (hT : h.volume.Tidy) (hbase : h.volume.locate "/" (absolute "/" target) true = .ok base)
    (hcs : cs ∈ declaredBy data) (hpre : bs <+: cs) (hne : bs ≠ [])
    (hvalid : ∀ b ∈ bs, ∃ s, decodeStrict b = .ok s)
    (hx : h.volume.node? (base ++ bs.map decodeName) = some x) (hxd : x.isDir = false)
    (hrun : runSync h data target o torrentPath = .ok (h', r)) :
    h'.volume.node? (base ++ bs.map decodeName) = some x ∧
      ∀ D, D <+: base ++ bs.map decodeName → D ≠ base ++ bs.map decodeName →
        ∃ E, h'.volume.node? D = some (.dir E) := by
  have hkept : h'.volume.node? (base ++ bs.map decodeName) = some x := by
    rcases runSync_volume hrun with hsame | ⟨val, rest, m, journal, report, hparse, hm, hrec⟩
    · rw [hsame]
      exact hx
    -- the file system's names of well-formed bytes are the manifest's
    have hnames : declaredPath bs = "/".intercalate (bs.map decodeName) := by
      unfold declaredPath
      congr 1
      refine List.map_congr_left fun b hb ↦ ?_
      obtain ⟨s, hs⟩ := hvalid b hb
      exact ((decodeName_eq_decodeLossyText_iff b).mpr ⟨s, hs⟩).symm
    have hcs' : cs ∈ declaredComponents (Metadata.ofValue val) := by
      simpa [declaredBy, hparse] using hcs
    have hkeep := Manifest.keeps_leading_parts hm hcs' hpre hne
    rw [hnames] at hkeep
    exact reconcile_keeps_kept_entries hT hbase hx hxd hkeep hrec
  exact ⟨hkept, fun D hD hne' ↦ Volume.dir_of_prefix_of_ne hkept hD hne'⟩

/-- A torrent declaring the one file `é/b`, and a target `/root` that holds a link `é` in place
of the folder: a sync keeps the link. -/
theorem sync_keeps_declared_entries_link_for_folder :
    (Host.ofVolume ⟨[("root", .dir [("é", .link "/elsewhere")])], 0⟩).volume.Tidy ∧
      (Host.ofVolume ⟨[("root", .dir [("é", .link "/elsewhere")])], 0⟩).volume.locate "/"
        (absolute "/" "/root") true = .ok ["root"] ∧
      [[0xC3, 0xA9], [0x62]] ∈ declaredBy [100, 52, 58, 105, 110, 102, 111, 100, 53, 58, 102,
        105, 108, 101, 115, 108, 100, 52, 58, 112, 97, 116, 104, 108, 50, 58, 195, 169, 49, 58,
        98, 101, 101, 101, 101, 101] ∧
      ∃ h' r, runSync (Host.ofVolume ⟨[("root", .dir [("é", .link "/elsewhere")])], 0⟩)
          [100, 52, 58, 105, 110, 102, 111, 100, 53, 58, 102, 105, 108, 101, 115, 108, 100, 52,
            58, 112, 97, 116, 104, 108, 50, 58, 195, 169, 49, 58, 98, 101, 101, 101, 101, 101]
          "/root" ⟨false, 0, .whole 0, false⟩ "" = .ok (h', r) ∧
        h'.volume.node? (["root"] ++ [[0xC3, 0xA9]].map decodeName) = some (.link "/elsewhere") ∧
        ∀ D, D <+: ["root"] ++ [[0xC3, 0xA9]].map decodeName →
          D ≠ ["root"] ++ [[0xC3, 0xA9]].map decodeName →
          ∃ E, h'.volume.node? D = some (.dir E) := by
  have hT : (Host.ofVolume ⟨[("root", .dir [("é", .link "/elsewhere")])], 0⟩).volume.Tidy := by
    decide +kernel
  have hbase : (Host.ofVolume ⟨[("root", .dir [("é", .link "/elsewhere")])], 0⟩).volume.locate
      "/" (absolute "/" "/root") true = .ok ["root"] := by decide +kernel
  have hcs : [[0xC3, 0xA9], [0x62]] ∈ declaredBy [100, 52, 58, 105, 110, 102, 111, 100, 53, 58,
      102, 105, 108, 101, 115, 108, 100, 52, 58, 112, 97, 116, 104, 108, 50, 58, 195, 169, 49, 58,
      98, 101, 101, 101, 101, 101] := by decide +kernel
  have hname : decodeName [0xC3, 0xA9] = "é" := by decide +kernel
  have hvalid : ∀ b ∈ [[(0xC3 : UInt8), 0xA9]], ∃ s, decodeStrict b = .ok s := by
    intro b hb
    rw [List.mem_singleton.mp hb]
    have hs : (decodeStrict [0xC3, 0xA9]).toOption = some "é" := by decide +kernel
    revert hs
    cases decodeStrict [0xC3, 0xA9] <;> simp [Except.toOption]
  have hx : (Host.ofVolume ⟨[("root", .dir [("é", .link "/elsewhere")])], 0⟩).volume.node?
      (["root"] ++ [[0xC3, 0xA9]].map decodeName) = some (.link "/elsewhere") := by
    simp only [List.map_cons, List.map_nil, hname, List.cons_append, List.nil_append]
    rfl
  -- the run goes through
  obtain ⟨h', r, hrun⟩ : ∃ h' r,
      runSync (Host.ofVolume ⟨[("root", .dir [("é", .link "/elsewhere")])], 0⟩)
        [100, 52, 58, 105, 110, 102, 111, 100, 53, 58, 102, 105, 108, 101, 115, 108, 100, 52, 58,
          112, 97, 116, 104, 108, 50, 58, 195, 169, 49, 58, 98, 101, 101, 101, 101, 101]
        "/root" ⟨false, 0, .whole 0, false⟩ "" = .ok (h', r) := by
    have hok : (runSync (Host.ofVolume ⟨[("root", .dir [("é", .link "/elsewhere")])], 0⟩)
        [100, 52, 58, 105, 110, 102, 111, 100, 53, 58, 102, 105, 108, 101, 115, 108, 100, 52, 58,
          112, 97, 116, 104, 108, 50, 58, 195, 169, 49, 58, 98, 101, 101, 101, 101, 101]
        "/root" ⟨false, 0, .whole 0, false⟩ "").toOption.isSome = true := by decide +kernel
    revert hok
    cases runSync (Host.ofVolume ⟨[("root", .dir [("é", .link "/elsewhere")])], 0⟩)
        [100, 52, 58, 105, 110, 102, 111, 100, 53, 58, 102, 105, 108, 101, 115, 108, 100, 52, 58,
          112, 97, 116, 104, 108, 50, 58, 195, 169, 49, 58, 98, 101, 101, 101, 101, 101]
        "/root" ⟨false, 0, .whole 0, false⟩ "" with
    | ok res => exact fun _ ↦ ⟨res.1, res.2, rfl⟩
    | error e => simp [Except.toOption]
  exact ⟨hT, hbase, hcs, h', r, hrun,
    sync_keeps_declared_entries hT hbase hcs (List.prefix_append _ _) (by simp) hvalid hx rfl hrun⟩

/-- A torrent whose `name` is the single byte 0xFF, which is not UTF-8, and a target holding the
file of that byte name: the manifest reads U+FFFD where the file system keeps the byte, and a
sync that succeeds leaves the declared file gone. -/
theorem sync_removes_undecodable_declared_name :
    [[0xFF]] ∈ declaredBy [100, 52, 58, 105, 110, 102, 111, 100, 52, 58, 110, 97, 109, 101, 49,
      58, 255, 101, 101] ∧
      decodeName [0xFF] ≠ decodeLossyText [0xFF] ∧
      ((⟨[("root", .dir [(decodeName [0xFF], .file 0 [])])], 1⟩ : Volume).node?
        ["root", decodeName [0xFF]]).isSome = true ∧
      (match runSync (Host.ofVolume ⟨[("root", .dir [(decodeName [0xFF], .file 0 [])])], 1⟩)
          [100, 52, 58, 105, 110, 102, 111, 100, 52, 58, 110, 97, 109, 101, 49, 58, 255, 101, 101]
          "/root" ⟨false, 0, .whole 0, false⟩ "" with
        | .ok (h', _) => (h'.volume.node? ["root", decodeName [0xFF]]).isNone
        | .error _ => false) = true :=
  ⟨by decide +kernel, by decide +kernel, by decide +kernel, by decide +kernel⟩

end TorrentPrune.Run

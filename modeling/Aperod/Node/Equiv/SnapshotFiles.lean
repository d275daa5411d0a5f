import Aperod.Node.SnapshotFiles
import Aperod.Go.Run

/-!
# Which crashes leave a snapshot

Whether every crash during a call leaves a file the loaders accept depends on the directory the call
starts from (`startup_snapshots_iff`): `saveStartupSnapshot` first copies a primary over its backup,
checksum first, without looking whether the primary itself is accepted.  After a crash between the
new checksum and the rename it is not, and the next call then destroys the backup that was to
replace it (`second_crash_leaves_nothing`).
-/

namespace Aperod

open Go GoMap List

variable {B : Type} {K : SnapshotCodec B} {d d' : SnapshotDir}
variable {op : FileOp} {ops : List FileOp} {f f' : SnapshotFile}

/-! ### Accepted files -/

def SnapshotDir.Accepts (K : SnapshotCodec B) (d : SnapshotDir) (f : SnapshotFile) : Prop :=
  ∃ snap, tryLoadSnapshotFile K d f f.height = some snap

/-- Some file is accepted. -/
def SnapshotDir.Floor (K : SnapshotCodec B) (d : SnapshotDir) : Prop := ∃ f, d.Accepts K f

variable {height p : Nat} {snap : StartupSnapshot B}

theorem tryLoadSnapshotFile_eq_some :
    tryLoadSnapshotFile K d f height = some snap ↔ readSnapshot K d f height = .ok snap := by
  unfold tryLoadSnapshotFile
  cases readSnapshot K d f height with
  | error e => simp [Except.toOption]
  | ok snap' => simp [Except.toOption]

theorem accepts_congr (hfiles : d'.files.get f' = d.files.get f)
    (hsums : d'.checksums.get f' = d.checksums.get f) (hheight : f'.height = f.height) :
    d'.Accepts K f' ↔ d.Accepts K f := by
  unfold SnapshotDir.Accepts tryLoadSnapshotFile readSnapshot openSnapshot
  rw [hfiles, hsums, hheight]

theorem readSnapshot_eq_ok (h : readSnapshot K d f height = .ok snap) :
    ∃ bytes, d.files.get f = some bytes ∧ K.decode bytes = some snap ∧ snap.tipHeight = height := by
  obtain ⟨bytes, hopen, hcheck⟩ := unbind h
  refine ⟨bytes, ?_, ?_⟩
  · unfold openSnapshot at hopen
    split at hopen
    · cases hopen
    · rename_i content hget
      split_ifs at hopen
      split at hopen
      · cases hopen
        exact hget
      · split_ifs at hopen
        cases hopen
        exact hget
  · unfold checkSnapshot at hcheck
    split at hcheck
    · cases hcheck
    · rename_i snap' hdecode
      split_ifs at hcheck with hversion hheight
      cases hcheck
      exact ⟨hdecode, not_not.mp hheight⟩

theorem SnapshotDir.Accepts.listed {entries : List DirEntry} (hlist : d.Lists entries)
    (h : d.Accepts K f) : .file f ∈ entries := by
  obtain ⟨snap, hload⟩ := h
  obtain ⟨bytes, hget, -⟩ := readSnapshot_eq_ok (tryLoadSnapshotFile_eq_some.mp hload)
  exact (hlist.2 _).mpr (has_eq_true.mpr ⟨bytes, hget⟩)

/-! ### Calls -/

/-- A call, with what `os.ReadDir` gives it. -/
inductive SnapshotCall (B : Type)
  | save (entries : List DirEntry) (snap : StartupSnapshot B)
  | delete (entries : List DirEntry) (keep : Nat)

namespace SnapshotCall

/-- What `os.ReadDir` gives. -/
def entries : SnapshotCall B → List DirEntry
  | save entries _ => entries
  | delete entries _ => entries

/-- The operations of the call. -/
def script (K : SnapshotCodec B) (d : SnapshotDir) : SnapshotCall B → List FileOp
  | save entries snap => saveStartupSnapshot K d entries snap
  | delete entries keep => deleteOldSnapshots entries keep

/-- Some accepted file is neither a backup that a primary is copied over nor one that is removed. -/
def Secure (K : SnapshotCodec B) (d : SnapshotDir) : SnapshotCall B → Prop
  | save entries snap => ∃ f, d.Accepts K f ∧
      (f.prev = true → f.height ∉ d.promoted entries snap.tipHeight)
  | delete entries keep => ∃ f, d.Accepts K f ∧ keepsFile entries keep f = true

end SnapshotCall

/-! ### Single operations -/

/-- The snapshot file an operation changes, or the checksum of. -/
def FileOp.target : FileOp → SnapshotFile
  | .copyChecksum _ dst => dst
  | .copyFile _ dst => dst
  | .writeChecksum f _ => f
  | .rename f _ => f
  | .remove (.file f) => f
  | .remove (.checksum f) => f

theorem exec_frame (op : FileOp) (h : op.target ≠ f) :
    (d.exec op).files.get f = d.files.get f ∧
      (d.exec op).checksums.get f = d.checksums.get f := by
  cases op with
  | copyChecksum src dst =>
    unfold SnapshotDir.exec
    dsimp only
    split
    · exact ⟨rfl, get_del_ne (Ne.symm h)⟩
    · exact ⟨rfl, get_set_ne (Ne.symm h)⟩
  | copyFile src dst =>
    unfold SnapshotDir.exec
    dsimp only
    split
    · exact ⟨rfl, rfl⟩
    · exact ⟨get_set_ne (Ne.symm h), rfl⟩
  | writeChecksum g digest => exact ⟨rfl, get_set_ne (Ne.symm h)⟩
  | rename g bytes => exact ⟨get_set_ne (Ne.symm h), rfl⟩
  | remove e =>
    cases e with
    | file g => exact ⟨get_del_ne (Ne.symm h), rfl⟩
    | checksum g => exact ⟨rfl, get_del_ne (Ne.symm h)⟩

theorem foldl_exec_frame (h : ∀ op ∈ ops, op.target ≠ f) :
    (ops.foldl SnapshotDir.exec d).files.get f = d.files.get f ∧
      (ops.foldl SnapshotDir.exec d).checksums.get f = d.checksums.get f := by
  refine foldlRecOn (motive := fun e : SnapshotDir => e.files.get f = d.files.get f ∧
    e.checksums.get f = d.checksums.get f) ops _ ⟨rfl, rfl⟩ fun e he op hop => ?_
  obtain ⟨hfiles, hsums⟩ := exec_frame op (h op hop)
  exact ⟨hfiles.trans he.1, hsums.trans he.2⟩

theorem accepts_crash {script : List FileOp} (h : ∀ op ∈ script, op.target ≠ f) (n : Nat) :
    (d.crash script n).Accepts K f ↔ d.Accepts K f := by
  obtain ⟨hfiles, hsums⟩ := foldl_exec_frame fun op hop => h op (mem_of_mem_take hop)
  exact accepts_congr hfiles hsums rfl

/-! ### Promoting primaries -/

theorem promote_spec {bytes : Bytes} (hget : d.files.get ⟨p, false⟩ = some bytes) :
    ((promote p).foldl SnapshotDir.exec d).files.get ⟨p, true⟩ = d.files.get ⟨p, false⟩ ∧
      ((promote p).foldl SnapshotDir.exec d).checksums.get ⟨p, true⟩ =
        d.checksums.get ⟨p, false⟩ := by
  have hsum : (d.exec (.copyChecksum ⟨p, false⟩ ⟨p, true⟩)).checksums.get ⟨p, true⟩ =
      d.checksums.get ⟨p, false⟩ ∧
      (d.exec (.copyChecksum ⟨p, false⟩ ⟨p, true⟩)).files = d.files := by
    unfold SnapshotDir.exec
    dsimp only
    split
    · rename_i hnone
      exact ⟨(get_del_self _ _).trans hnone.symm, rfl⟩
    · rename_i digest hsome
      exact ⟨(get_set_self _ _ _).trans hsome.symm, rfl⟩
  set d1 := d.exec (.copyChecksum ⟨p, false⟩ ⟨p, true⟩) with hd1
  show (d1.exec (.copyFile ⟨p, false⟩ ⟨p, true⟩)).files.get ⟨p, true⟩ = _ ∧
    (d1.exec (.copyFile ⟨p, false⟩ ⟨p, true⟩)).checksums.get ⟨p, true⟩ = _
  have hget1 : d1.files.get ⟨p, false⟩ = some bytes := by rw [hsum.2, hget]
  unfold SnapshotDir.exec
  dsimp only
  rw [hget1, hget]
  exact ⟨get_set_self _ _ _, hsum.1⟩

theorem target_of_mem_promote (h : op ∈ promote p) : op.target = ⟨p, true⟩ := by
  simp only [promote, mem_cons, not_mem_nil, or_false] at h
  rcases h with rfl | rfl <;> rfl

theorem promotes_spec {ps : List Nat} (hps : ∀ p ∈ ps, d.files.has ⟨p, false⟩ = true) (hp : p ∈ ps)
    :
    ((ps.flatMap promote).foldl SnapshotDir.exec d).files.get ⟨p, true⟩ =
        d.files.get ⟨p, false⟩ ∧
      ((ps.flatMap promote).foldl SnapshotDir.exec d).checksums.get ⟨p, true⟩ =
        d.checksums.get ⟨p, false⟩ := by
  induction ps generalizing d with
  | nil => cases hp
  | cons q ps ih =>
    set d1 := (promote q).foldl SnapshotDir.exec d with hd1
    -- primaries stay as they are
    have hprimary : ∀ r, d1.files.get ⟨r, false⟩ = d.files.get ⟨r, false⟩ ∧
        d1.checksums.get ⟨r, false⟩ = d.checksums.get ⟨r, false⟩ := fun r =>
      foldl_exec_frame fun op hop => by
        rw [target_of_mem_promote hop]
        nofun
    have hps1 : ∀ p ∈ ps, d1.files.has ⟨p, false⟩ = true := by
      intro p hp
      unfold has
      rw [(hprimary p).1]
      exact hps p (mem_cons_of_mem _ hp)
    by_cases hlater : p ∈ ps
    · obtain ⟨hfiles, hsums⟩ := ih hps1 hlater
      exact ⟨hfiles.trans (hprimary p).1, hsums.trans (hprimary p).2⟩
    · obtain rfl : p = q := (mem_cons.mp hp).resolve_right hlater
      obtain ⟨bytes, hget⟩ := has_eq_true.mp (hps p hp)
      obtain ⟨hfiles, hsums⟩ := promote_spec hget
      have hrest : ∀ op ∈ ps.flatMap promote, op.target ≠ ⟨p, true⟩ := by
        intro op hop heq
        obtain ⟨r, hr, hop⟩ := mem_flatMap.mp hop
        rw [target_of_mem_promote hop] at heq
        cases heq
        exact hlater hr
      obtain ⟨hfiles', hsums'⟩ := foldl_exec_frame hrest
      exact ⟨hfiles'.trans hfiles, hsums'.trans hsums⟩

/-! ### Saving -/

theorem otherPrimary_eq_some {entries : List DirEntry} (h : otherPrimary height entries = some p) :
    .file ⟨p, false⟩ ∈ entries ∧ p ≠ height := by
  obtain ⟨e, he, hsome⟩ := exists_of_findSome?_eq_some h
  cases e with
  | checksum f => cases hsome
  | file f =>
    obtain ⟨q, prev⟩ := f
    cases prev with
    | true => cases hsome
    | false =>
      dsimp only at hsome
      split_ifs at hsome with hq
      cases hsome
      exact ⟨he, hq⟩

theorem has_of_mem_promoted {entries : List DirEntry} (hlist : d.Lists entries)
    (hp : p ∈ d.promoted entries height) : d.files.has ⟨p, false⟩ = true := by
  rcases mem_append.mp hp with hp | hp
  · split_ifs at hp with hhas
    · rw [mem_singleton.mp hp]
      exact hhas
    · cases hp
  · have hother := otherPrimary_eq_some (Option.mem_toList.mp hp)
    exact (hlist.2 _).mp hother.1

section Save

variable {entries : List DirEntry}

theorem target_of_mem_save (h : op ∈ saveStartupSnapshot K d entries snap) :
    (∃ p ∈ d.promoted entries snap.tipHeight, op.target = ⟨p, true⟩) ∨
      op.target = ⟨snap.tipHeight, false⟩ := by
  rcases mem_append.mp h with h | h
  · obtain ⟨p, hp, hop⟩ := mem_flatMap.mp h
    exact .inl ⟨p, hp, target_of_mem_promote hop⟩
  · right
    simp only [mem_cons, not_mem_nil, or_false] at h
    rcases h with rfl | rfl <;> rfl

theorem floor_save_of_primary (haccept : d.Accepts K ⟨snap.tipHeight, false⟩) (n : Nat) :
    (d.crash (saveStartupSnapshot K d entries snap) n).Floor K := by
  set h := snap.tipHeight with hh
  have hhas : d.files.has ⟨h, false⟩ = true := by
    obtain ⟨snap', hload⟩ := haccept
    obtain ⟨bytes, hget, -⟩ := readSnapshot_eq_ok (tryLoadSnapshotFile_eq_some.mp hload)
    exact has_eq_true.mpr ⟨bytes, hget⟩
  obtain ⟨bytes, hget⟩ := has_eq_true.mp hhas
  -- the script begins with the two copies
  obtain ⟨rest, hscript, hrest⟩ : ∃ rest, saveStartupSnapshot K d entries snap = promote h ++ rest ∧
      ∀ op ∈ rest, op.target ≠ ⟨h, true⟩ := by
    refine ⟨(otherPrimary h entries).toList.flatMap promote ++ [.writeChecksum ⟨h, false⟩
      (K.sha256 (K.encode snap)), .rename ⟨h, false⟩ (K.encode snap)], ?_, fun op hop => ?_⟩
    · unfold saveStartupSnapshot SnapshotDir.promoted
      rw [if_pos hhas, singleton_append, flatMap_cons, append_assoc]
    · rcases mem_append.mp hop with hop | hop
      · obtain ⟨p, hp, hop⟩ := mem_flatMap.mp hop
        rw [target_of_mem_promote hop]
        intro heq
        cases heq
        exact (otherPrimary_eq_some (Option.mem_toList.mp hp)).2 rfl
      · simp only [mem_cons, not_mem_nil, or_false] at hop
        rcases hop with rfl | rfl <;> nofun
  rw [hscript]
  by_cases hn : n < 2
  · refine ⟨⟨h, false⟩, ?_⟩
    have htake : (promote h ++ rest).take n = (promote h).take n :=
      take_append_of_le_length (show n ≤ 2 by omega)
    unfold SnapshotDir.crash
    rw [htake]
    refine (accepts_crash (fun op hop => ?_) n).mpr haccept
    rw [target_of_mem_promote hop]
    nofun
  · refine ⟨⟨h, true⟩, ?_⟩
    have htake : (promote h ++ rest).take n = promote h ++ rest.take (n - 2) := by
      rw [take_append, take_of_length_le (show (promote h).length ≤ n by
        show 2 ≤ n
        omega)]
      rfl
    unfold SnapshotDir.crash
    rw [htake]
    obtain ⟨hfiles, hsums⟩ := promote_spec hget
    have hcopied : ((promote h).foldl SnapshotDir.exec d).Accepts K ⟨h, true⟩ :=
      (accepts_congr hfiles hsums rfl).mpr haccept
    exact (accepts_crash hrest (n - 2)).mpr hcopied

theorem floor_save_iff (hlist : d.Lists entries) :
    (∀ n, (d.crash (saveStartupSnapshot K d entries snap) n).Floor K) ↔
      (SnapshotCall.save entries snap).Secure K d := by
  constructor
  · intro h
    -- look at the crash right before the new checksum is written
    obtain ⟨f, hf⟩ := h ((d.promoted entries snap.tipHeight).flatMap promote).length
    unfold SnapshotDir.crash saveStartupSnapshot at hf
    rw [take_left] at hf
    by_cases hbackup : ∃ p ∈ d.promoted entries snap.tipHeight, f = ⟨p, true⟩
    · -- a backup is then as its primary
      obtain ⟨p, hp, rfl⟩ := hbackup
      obtain ⟨hfiles, hsums⟩ := promotes_spec (fun q => has_of_mem_promoted hlist) hp
      exact ⟨⟨p, false⟩, (accepts_congr hfiles hsums rfl).mp hf, nofun⟩
    · have hother : ∀ op ∈ (d.promoted entries snap.tipHeight).flatMap promote, op.target ≠ f := by
        intro op hop heq
        obtain ⟨p, hp, hop⟩ := mem_flatMap.mp hop
        exact hbackup ⟨p, hp, heq ▸ target_of_mem_promote hop⟩
      obtain ⟨hfiles, hsums⟩ := foldl_exec_frame hother
      refine ⟨f, (accepts_congr hfiles hsums rfl).mp hf, fun hprev hmem => hbackup ⟨_, hmem, ?_⟩⟩
      obtain ⟨height, prev⟩ := f
      cases hprev
      rfl
  · rintro ⟨f, haccept, hsafe⟩ n
    by_cases hprimary : f = ⟨snap.tipHeight, false⟩
    · exact floor_save_of_primary (hprimary ▸ haccept) n
    · refine ⟨f, (accepts_crash (fun op hop heq => ?_) n).mpr haccept⟩
      rcases target_of_mem_save hop with ⟨p, hp, htarget⟩ | htarget
      · rw [htarget] at heq
        subst heq
        exact hsafe rfl hp
      · exact hprimary (heq.symm.trans htarget)

end Save

/-! ### Deleting -/

section Delete

variable {entries : List DirEntry} {keep : Nat}

theorem mem_deleteOldSnapshots : op ∈ deleteOldSnapshots entries keep ↔
    ∃ e ∈ entries, op = .remove e ∧ keepsFile entries keep op.target = false := by
  unfold deleteOldSnapshots
  rw [mem_map]
  constructor
  · rintro ⟨e, he, rfl⟩
    obtain ⟨hmem, hkeep⟩ := mem_filter.mp he
    cases e <;> exact ⟨_, hmem, rfl, by simpa [FileOp.target] using hkeep⟩
  · rintro ⟨e, he, rfl, hkeep⟩
    refine ⟨e, mem_filter.mpr ⟨he, ?_⟩, rfl⟩
    cases e <;> simpa [FileOp.target] using hkeep

theorem get_foldl_remove_of_none
    (hops : ∀ op ∈ ops, ∃ e, op = .remove e) (hnone : d.files.get f = none) :
    (ops.foldl SnapshotDir.exec d).files.get f = none := by
  refine foldlRecOn (motive := fun d : SnapshotDir => d.files.get f = none) ops _ hnone
    fun d hnone op hop => ?_
  obtain ⟨e, rfl⟩ := hops op hop
  cases e with
  | checksum g => exact hnone
  | file g =>
    show (d.files.del g).get f = none
    rw [get_del, hnone, ite_self]

theorem get_foldl_remove (hops : ∀ op ∈ ops, ∃ e, op = .remove e) (hmem : .remove (.file f) ∈ ops) :
    (ops.foldl SnapshotDir.exec d).files.get f = none := by
  induction ops generalizing d with
  | nil => cases hmem
  | cons op ops ih =>
    have hops' : ∀ op ∈ ops, ∃ e, op = .remove e := fun op' hop' =>
      hops op' (mem_cons_of_mem _ hop')
    rcases mem_cons.mp hmem with rfl | hmem
    · show (ops.foldl SnapshotDir.exec { d with files := d.files.del f }).files.get f = none
      exact get_foldl_remove_of_none hops' (get_del_self _ _)
    · exact ih hops' hmem

theorem floor_delete_iff (hlist : d.Lists entries) :
    (∀ n, (d.crash (deleteOldSnapshots entries keep) n).Floor K) ↔
      (SnapshotCall.delete (B := B) entries keep).Secure K d := by
  have hkept : ∀ f, keepsFile entries keep f = true →
      ∀ op ∈ deleteOldSnapshots entries keep, op.target ≠ f := by
    rintro f hf op hop rfl
    obtain ⟨-, -, -, hkeep⟩ := mem_deleteOldSnapshots.mp hop
    rw [hf] at hkeep
    cases hkeep
  constructor
  · intro h
    obtain ⟨f, hf⟩ := h (deleteOldSnapshots entries keep).length
    cases hkeep : keepsFile entries keep f with
    | true => exact ⟨f, (accepts_crash (hkept f hkeep) _).mp hf, hkeep⟩
    | false =>
      -- a file that is not kept is gone
      obtain ⟨snap, hload⟩ := hf
      obtain ⟨bytes, hget, -⟩ := readSnapshot_eq_ok (tryLoadSnapshotFile_eq_some.mp hload)
      unfold SnapshotDir.crash at hget
      rw [take_length] at hget
      have hops : ∀ op ∈ deleteOldSnapshots entries keep, ∃ e, op = .remove e := by
        intro op hop
        obtain ⟨e, -, heq, -⟩ := mem_deleteOldSnapshots.mp hop
        exact ⟨e, heq⟩
      by_cases hlisted : .file f ∈ entries
      · have hmem : .remove (.file f) ∈ deleteOldSnapshots entries keep :=
          mem_deleteOldSnapshots.mpr ⟨_, hlisted, rfl, hkeep⟩
        rw [get_foldl_remove hops hmem] at hget
        cases hget
      · have hnone : d.files.get f = none :=
          has_eq_false.mp (Bool.eq_false_iff.mpr fun hhas => hlisted ((hlist.2 _).mpr hhas))
        rw [get_foldl_remove_of_none hops hnone] at hget
        cases hget
  · rintro ⟨f, haccept, hkeep⟩ n
    exact ⟨f, (accepts_crash (hkept f hkeep) n).mpr haccept⟩

end Delete

/-! ### Runs -/

/-- A call that comes as far as its first `n` operations. -/
structure SnapshotEvent (B : Type) where
  call : SnapshotCall B
  n : Nat

/-- One call on the directory. -/
def SnapshotStep (K : SnapshotCodec B) (d : SnapshotDir) (e : SnapshotEvent B) (d' : SnapshotDir) :
    Prop :=
  d.Lists e.call.entries ∧ d' = d.crash (e.call.script K d) e.n

/-- The snapshot was passed to `saveStartupSnapshot`. -/
def Passed (events : List (SnapshotEvent B)) (snap : StartupSnapshot B) : Prop :=
  ∃ entries n, ⟨.save entries snap, n⟩ ∈ events

/-- Every file has the bytes of a snapshot that was passed for its height. -/
def SnapshotDir.Genuine (K : SnapshotCodec B) (events : List (SnapshotEvent B)) (d : SnapshotDir) :
    Prop :=
  d.files.All fun f bytes => ∃ snap, Passed events snap ∧ snap.tipHeight = f.height ∧
    bytes = K.encode snap

/-- The operations that bring only genuine bytes. -/
def FileOp.Brings (K : SnapshotCodec B) (events : List (SnapshotEvent B)) : FileOp → Prop
  | .copyFile src dst => src.height = dst.height
  | .rename f bytes => ∃ snap, Passed events snap ∧ snap.tipHeight = f.height ∧
      bytes = K.encode snap
  | _ => True

variable {events : List (SnapshotEvent B)}

theorem SnapshotDir.Genuine.exec (hd : d.Genuine K events) (hop : op.Brings K events) :
    (d.exec op).Genuine K events := by
  cases op with
  | copyChecksum src dst =>
    unfold SnapshotDir.exec
    dsimp only
    split <;> exact hd
  | copyFile src dst =>
    unfold SnapshotDir.exec
    dsimp only
    split
    · exact hd
    · rename_i bytes hget
      obtain ⟨snap, hpassed, hheight, hbytes⟩ := hd src bytes hget
      exact GoMap.All.set hd ⟨snap, hpassed, hheight.trans hop, hbytes⟩
  | writeChecksum f digest => exact hd
  | rename f bytes => exact GoMap.All.set hd hop
  | remove e =>
    cases e with
    | file f => exact GoMap.All.del hd f
    | checksum f => exact hd

theorem SnapshotDir.Genuine.foldl (hd : d.Genuine K events)
    (hops : ∀ op ∈ ops, op.Brings K events) :
    (ops.foldl SnapshotDir.exec d).Genuine K events :=
  foldlRecOn ops _ hd fun _ hd op hop => hd.exec (hops op hop)

theorem brings_of_mem_script {e : SnapshotEvent B} (he : e ∈ events) (hop : op ∈ e.call.script K d) :
    op.Brings K events := by
  obtain ⟨call, n⟩ := e
  cases call with
  | delete entries keep =>
    obtain ⟨e, -, rfl, -⟩ := mem_deleteOldSnapshots.mp hop
    trivial
  | save entries snap =>
    rcases mem_append.mp hop with hop | hop
    · obtain ⟨p, -, hop⟩ := mem_flatMap.mp hop
      simp only [promote, mem_cons, not_mem_nil, or_false] at hop
      rcases hop with rfl | rfl
      · trivial
      · exact rfl
    · simp only [mem_cons, not_mem_nil, or_false] at hop
      rcases hop with rfl | rfl
      · trivial
      · exact ⟨snap, ⟨entries, n, he⟩, rfl, rfl⟩

theorem Passed.append {past : List (SnapshotEvent B)} {e : SnapshotEvent B} (h : Passed past snap) :
    Passed (past ++ [e]) snap := by
  obtain ⟨entries, n, hmem⟩ := h
  exact ⟨entries, n, mem_append_left _ hmem⟩

theorem genuine_of_run (h : Run (SnapshotStep K) {} events d) : d.Genuine K events := by
  refine h.history (fun past d => d.Genuine K past) ?_ .empty
  rintro past d e d' - hd ⟨-, rfl⟩
  have hd' : d.Genuine K (past ++ [e]) := by
    intro f bytes hget
    obtain ⟨snap, hpassed, hrest⟩ := hd f bytes hget
    exact ⟨snap, hpassed.append, hrest⟩
  exact hd'.foldl fun op hop => brings_of_mem_script (mem_append_right _ mem_cons_self)
    (mem_of_mem_take hop)

/-- **Startup snapshots after crashes.**  In every directory that calls and crashes lead to, an
accepted file has exactly the bytes of a snapshot that was passed for its height; and every crash of
the next call leaves an accepted file exactly if the call is secure. -/
theorem startup_snapshots_iff {events : List (SnapshotEvent B)}
    (hrun : Run (SnapshotStep K) {} events d) :
    (∀ f snap, tryLoadSnapshotFile K d f f.height = some snap →
      Passed events snap ∧ snap.tipHeight = f.height ∧ d.files.get f = some (K.encode snap)) ∧
    ∀ call : SnapshotCall B, d.Lists call.entries →
      ((∀ n, (d.crash (call.script K d) n).Floor K) ↔ call.Secure K d) := by
  refine ⟨fun f snap hload => ?_, fun call hlist => ?_⟩
  · obtain ⟨bytes, hget, hdecode, hheight⟩ :=
      readSnapshot_eq_ok (tryLoadSnapshotFile_eq_some.mp hload)
    obtain ⟨snap', hpassed, hheight', rfl⟩ := genuine_of_run hrun f bytes hget
    rw [K.decode_encode] at hdecode
    cases hdecode
    exact ⟨hpassed, hheight', hget⟩
  · cases call with
    | save entries snap => exact floor_save_iff hlist
    | delete entries keep => exact floor_delete_iff hlist

/-! ### Two crashes -/

theorem takeWhile_ones (n : Nat) (rest : Bytes) :
    (replicate n 1 ++ 0 :: rest).takeWhile (· = 1) = replicate n 1 := by
  rw [takeWhile_append_of_pos (by simp), takeWhile_cons_of_neg (by simp), append_nil]

theorem padding_le (n version height : Nat) :
    100 ≤ n + (version + (height + (100 + 1) + 1)) + 1 := by
  omega

/-- Snapshots written in the open, with their body for a digest. -/
def plainCodec : SnapshotCodec UInt8 where
  sha256 bytes := BitVec.ofNat _ (bytes.headD 0).toNat
  encode snap := snap.body :: (arrayBytes snap.tipHash ++ (replicate snap.version 1 ++
    0 :: (replicate snap.tipHeight 1 ++ 0 :: replicate 100 0)))
  decode
    | [] => none
    | body :: bytes =>
      let version := (bytes.drop 32).takeWhile (· = 1)
      let height := ((bytes.drop 32).drop (version.length + 1)).takeWhile (· = 1)
      some ⟨version.length, height.length, bytesArray 32 bytes, body⟩
  decode_encode snap := by
    have hlen : (arrayBytes snap.tipHash).length = 32 := arrayBytes_length _
    have hhash : ∀ rest, bytesArray 32 (arrayBytes snap.tipHash ++ rest) = snap.tipHash := by
      intro rest
      rw [bytesArray, take_left' hlen]
      have hback := bytesArray_arrayBytes (w := 32) snap.tipHash
      rwa [bytesArray, take_of_length_le hlen.le] at hback
    have hskip : ∀ (n : Nat) (rest : Bytes),
        (replicate n 1 ++ 0 :: rest).drop (n + 1) = rest := by
      intro n rest
      rw [← drop_drop, drop_left' (length_replicate ..)]
      rfl
    dsimp only
    rw [hhash, drop_left' hlen, takeWhile_ones, length_replicate, hskip, takeWhile_ones,
      length_replicate]
  encode_length snap := by
    simp only [length_cons, length_append, length_replicate]
    exact padding_le _ _ _

def bodySnapshot (body : UInt8) : StartupSnapshot UInt8 := ⟨snapVersion, 1, 0, body⟩

/-- The names of a directory with the primary of height 1, and of one with its backup too. -/
def primaryEntries : List DirEntry := [.file ⟨1, false⟩, .checksum ⟨1, false⟩]

def backupEntries : List DirEntry := primaryEntries ++ [.file ⟨1, true⟩, .checksum ⟨1, true⟩]

def savedDir : SnapshotDir :=
  ({} : SnapshotDir).crash (saveStartupSnapshot plainCodec {} [] (bodySnapshot 1)) 2

/-- The next save crashed between its checksum and its rename. -/
def crashedDir : SnapshotDir :=
  savedDir.crash (saveStartupSnapshot plainCodec savedDir primaryEntries (bodySnapshot 2)) 3

theorem lists_of_keys {entries : List DirEntry} (hnodup : entries.Nodup)
    (hfiles : d.files.keys.image .file ∪ d.checksums.keys.image .checksum = entries.toFinset) :
    d.Lists entries := by
  refine ⟨hnodup, fun e => ?_⟩
  rw [← mem_toFinset, ← hfiles]
  cases e with
  | file f => simp [SnapshotDir.has, GoMap.mem_keys, has_eq_true]
  | checksum f => simp [SnapshotDir.has, GoMap.mem_keys, has_eq_true]

theorem savedDir_run : Run (SnapshotStep plainCodec) {} [⟨.save [] (bodySnapshot 1), 2⟩] savedDir :=
  .cons ⟨lists_of_keys nodup_nil (by decide +kernel), rfl⟩ (.nil _)

theorem savedDir_lists : savedDir.Lists primaryEntries :=
  lists_of_keys (by decide) (by decide +kernel)

/-- With one good snapshot on disk the next save is secure. -/
theorem second_save_secure : ∃ d, Run (SnapshotStep plainCodec) {}
    [⟨.save [] (bodySnapshot 1), 2⟩] d ∧ ∀ n, SnapshotDir.Floor plainCodec
      (d.crash ((SnapshotCall.save primaryEntries (bodySnapshot 2)).script plainCodec d) n) := by
  have haccept : ∃ snap, tryLoadSnapshotFile plainCodec savedDir ⟨1, false⟩ 1 = some snap :=
    Option.isSome_iff_exists.mp (by decide +kernel)
  refine ⟨savedDir, savedDir_run, ?_⟩
  exact ((startup_snapshots_iff savedDir_run).2 (.save primaryEntries (bodySnapshot 2))
    savedDir_lists).mpr ⟨⟨1, false⟩, haccept, nofun⟩

/-- A crash after the checksum of a save, and one after the first copy of the next: no file is
accepted any more. -/
theorem second_crash_leaves_nothing : ∃ events d d',
    Run (SnapshotStep plainCodec) {} events d ∧ d.Floor plainCodec ∧
      SnapshotStep plainCodec d ⟨.save backupEntries (bodySnapshot 3), 1⟩ d' ∧
      ¬ d'.Floor plainCodec := by
  have hrun : Run (SnapshotStep plainCodec) {} [⟨.save [] (bodySnapshot 1), 2⟩,
      ⟨.save primaryEntries (bodySnapshot 2), 3⟩] crashedDir :=
    savedDir_run.append (.cons ⟨savedDir_lists, rfl⟩ (.nil _))
  have haccept : ∃ snap, tryLoadSnapshotFile plainCodec crashedDir ⟨1, true⟩ 1 = some snap :=
    Option.isSome_iff_exists.mp (by decide +kernel)
  have hlists : crashedDir.Lists backupEntries := lists_of_keys (by decide) (by decide +kernel)
  refine ⟨_, crashedDir, _, hrun, ⟨⟨1, true⟩, haccept⟩, ⟨hlists, rfl⟩, ?_⟩
  rintro ⟨f, hf⟩
  have hlists' : SnapshotDir.Lists (crashedDir.crash (saveStartupSnapshot plainCodec crashedDir
      backupEntries (bodySnapshot 3)) 1) backupEntries :=
    lists_of_keys (by decide) (by decide +kernel)
  have hlisted := hf.listed hlists'
  have hnone : ∀ e ∈ backupEntries, ∀ f, e = .file f → tryLoadSnapshotFile plainCodec
      (crashedDir.crash (saveStartupSnapshot plainCodec crashedDir backupEntries
        (bodySnapshot 3)) 1) f f.height = none := by
    intro e he f hef
    simp only [backupEntries, primaryEntries, cons_append, nil_append, mem_cons,
      not_mem_nil, or_false] at he
    rcases he with rfl | rfl | rfl | rfl <;> cases hef
    · decide +kernel
    · decide +kernel
  obtain ⟨snap, hload⟩ := hf
  have hfail := hnone _ hlisted f rfl
  cases hload.symm.trans hfail

end Aperod

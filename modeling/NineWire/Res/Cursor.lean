import NineWire.Res.Rewind

/-! The cursor of an open directory under any file system: what a read takes
off it when it returns, and what it has taken off it when it fails. -/
namespace NineWire.Res
open NineWire.Wire NineWire.Server NineWire.Os NineWire.Stateful

/-- The state behind a mutex and the records of its entries, whatever the file
system answers. `peek` is the record an entry has at one moment. -/
structure Lister (α : Type) where
  lock : World → ListState α
  store : ListState α → Call World Unit
  record : α → Call World Stat
  peek : Fs → α → Option Stat
  lock_fs (world : World) (fs : Nat → Fs) : lock { world with fs } = lock world
  store_run (state : ListState α) (world : World) : ∃ world',
    (store state).run world = .ok () world' ∧ world'.fs = world.fs ∧ lock world' = state
  record_ok {entry : α} {stat : Stat} {world world' : World}
    (h : (record entry).run world = .ok stat world') :
    peek (world.fs world.clock) entry = some stat ∧ world'.fs = world.fs ∧
      lock world' = lock world
  record_error {entry : α} {e : Abort} {world world' : World}
    (h : (record entry).run world = .error e world') :
    peek (world.fs world.clock) entry = none ∧ lock world' = lock world

section Lister
variable {α : Type} {src : Lister α} {state : ListState α} {entries : List α} {entry : α}
  {buf data : Bytes} {count : Nat} {world world' : World}

def Lister.fill (src : Lister α) (state : ListState α) (count : Nat) :
    List α → Bytes → Call World Bytes :=
  Res.fill src.record (fun rem => src.store { state with rem }) count

inductive FirstPut (src : Lister α) (state : ListState α) (count : Nat) (entry : α)
    (entries : List α) (buf : Bytes) (world : World) : Prop
  | missing {e world'} (hpeek : src.peek (world.fs world.clock) entry = none)
      (hlock : src.lock world' = src.lock world)
      (hrun : (src.fill state count (entry :: entries) buf).run world = .error e world')
  | oversized {stat e world'} (hpeek : src.peek (world.fs world.clock) entry = some stat)
      (hlen : 2^16 ≤ stat.len - 2) (hlock : src.lock world' = src.lock world)
      (hrun : (src.fill state count (entry :: entries) buf).run world = .error e world')
  | full {stat world'} (hpeek : src.peek (world.fs world.clock) entry = some stat)
      (hlen : stat.len - 2 < 2^16) (hcount : count < buf.length + stat.len)
      (hlock : src.lock world' = src.lock world)
      (hrun : (src.fill state count (entry :: entries) buf).run world = .ok buf world')
  | put {stat world'} (hpeek : src.peek (world.fs world.clock) entry = some stat)
      (hlen : stat.len - 2 < 2^16) (hcount : buf.length + stat.len ≤ count)
      (hlock : src.lock world' = { state with rem := entries })
      (hrun : (src.fill state count (entry :: entries) buf).run world =
        (src.fill state count entries (buf ++ stat.encode)).run world')

theorem firstPut (src : Lister α) (state : ListState α) (count : Nat) (entry : α)
    (entries : List α) (buf : Bytes) (world : World) :
    FirstPut src state count entry entries buf world := by
  cases hrecord : (src.record entry).run world with
  | error e world' =>
    obtain ⟨hpeek, hlock⟩ := src.record_error hrecord
    exact .missing hpeek hlock (bind_run_error hrecord _)
  | ok stat world' =>
    obtain ⟨hpeek, -, hlock⟩ := src.record_ok hrecord
    have hfill : (src.fill state count (entry :: entries) buf).run world = _ :=
      bind_run_ok hrecord _
    by_cases hlen : stat.len - 2 < 2^16
    · rw [putStat_run hlen] at hfill
      have hout : (buf ++ stat.encode).length = buf.length + stat.len := by
        rw [List.length_append, encode_length hlen]
      by_cases hfull : count < (buf ++ stat.encode).length
      · simp only [if_pos hfull] at hfill
        exact .full hpeek hlen (hout ▸ hfull) hlock hfill
      · simp only [if_neg hfull] at hfill
        obtain ⟨world'', hstore, -, hlock'⟩ := src.store_run { state with rem := entries } world'
        rw [bind_run_ok hstore] at hfill
        exact .put hpeek hlen (by omega) hlock' hfill
    · cases hput : (putStat stat).run buf with
      | ok out => exact (hlen (stat_shows stat _ _ _ hput)).elim
      | error e =>
        rw [hput] at hfill
        exact .oversized hpeek (Nat.le_of_not_lt hlen) hlock hfill

/-- The loop returns whole records behind what it began with. -/
theorem Lister.fill_ok (h : (src.fill state count entries buf).run world = .ok data world') :
    ∃ taken, data = buf ++ encodeAll taken := by
  induction entries generalizing buf world with
  | nil =>
    cases h
    exact ⟨[], (List.append_nil _).symm⟩
  | cons entry entries ih =>
    cases firstPut src state count entry entries buf world with
    | missing hpeek hlock hrun => cases h.symm.trans hrun
    | oversized hpeek hlen hlock hrun => cases h.symm.trans hrun
    | full hpeek hlen hcount hlock hrun =>
      cases h.symm.trans hrun
      exact ⟨[], (List.append_nil _).symm⟩
    | @put stat world'' hpeek hlen hcount hlock hrun =>
      obtain ⟨taken, rfl⟩ := ih (hrun.symm.trans h)
      exact ⟨stat :: taken, by simp [encodeAll]⟩

theorem Lister.fill_error {e : Abort} (hlock : src.lock world = { state with rem := entries })
    (h : (src.fill state count entries buf).run world = .error e world') :
    ∃ left, left <:+ entries ∧ src.lock world' = { state with rem := left } := by
  induction entries generalizing buf world with
  | nil => cases h
  | cons entry entries ih =>
    cases firstPut src state count entry entries buf world with
    | missing hpeek hsame hrun =>
      cases h.symm.trans hrun
      exact ⟨entry :: entries, List.suffix_rfl, hsame.trans hlock⟩
    | oversized hpeek hlen hsame hrun =>
      cases h.symm.trans hrun
      exact ⟨entry :: entries, List.suffix_rfl, hsame.trans hlock⟩
    | full hpeek hlen hcount hsame hrun => cases h.symm.trans hrun
    | put hpeek hlen hcount hlock' hrun =>
      obtain ⟨left, hleft, hlock''⟩ := ih hlock' (hrun.symm.trans h)
      exact ⟨left, hleft.trans (List.suffix_cons entry entries), hlock''⟩

def Lister.first (src : Lister α) (world : World) : Option Stat :=
  (src.lock world).rem.head?.bind (src.peek (world.fs world.clock))

def Lister.take (src : Lister α) (count : UInt32) : Call World Bytes :=
  Res.take src.lock src.store src.record count

section Take
variable {count : UInt32} {left : World}

theorem Lister.take_of_fill_ok (h : (src.fill (src.lock world) count.toNat (src.lock world).rem
    []).run world = .ok data left) : ∃ world', (src.take count).run world = .ok data world' := by
  have hget (world : World) : (get : Call World World).run world = .ok world world := rfl
  obtain ⟨world', hstore, -, -⟩ := src.store_run { src.lock left with
    lastOffset := (src.lock left).lastOffset + UInt64.ofNat data.length } left
  refine ⟨world', ?_⟩
  rw [Lister.fill] at h
  rw [Lister.take, Res.take, bind_run_ok (hget world), bind_run_ok h, bind_run_ok (hget left)]
  exact bind_run_ok hstore _

theorem Lister.take_of_fill_error {e : Abort} (h : (src.fill (src.lock world) count.toNat
    (src.lock world).rem []).run world = .error e left) :
    (src.take count).run world = .error e left := by
  have hget (world : World) : (get : Call World World).run world = .ok world world := rfl
  rw [Lister.fill] at h
  rw [Lister.take, Res.take, bind_run_ok (hget world), bind_run_error h]

theorem Lister.fill_of_take_ok (h : (src.take count).run world = .ok data world') : ∃ left,
    (src.fill (src.lock world) count.toNat (src.lock world).rem []).run world = .ok data left := by
  cases hfill : (src.fill (src.lock world) count.toNat (src.lock world).rem []).run world with
  | error e left => cases h.symm.trans (Lister.take_of_fill_error hfill)
  | ok data' left =>
    obtain ⟨world'', htake⟩ := Lister.take_of_fill_ok hfill
    cases h.symm.trans htake
    exact ⟨left, rfl⟩

theorem Lister.fill_of_take_error {e : Abort} (h : (src.take count).run world = .error e world') :
    (src.fill (src.lock world) count.toNat (src.lock world).rem []).run world =
      .error e world' := by
  cases hfill : (src.fill (src.lock world) count.toNat (src.lock world).rem []).run world with
  | ok data left =>
    obtain ⟨world'', htake⟩ := Lister.take_of_fill_ok hfill
    cases h.symm.trans htake
  | error e' left =>
    cases h.symm.trans (Lister.take_of_fill_error hfill)
    rfl

/-- A read that returns nothing has come to the end, exactly when the record it
would put first fits in the count or cannot be had. -/
theorem Lister.empty_iff : (∀ data world', (src.take count).run world = .ok data world' →
      (data = [] → (src.lock world).rem = []) ∧
      (data ≠ [] → ∃ stat taken, data = encodeAll (stat :: taken))) ↔
    ∀ stat, src.first world = some stat → 2^16 ≤ stat.len - 2 ∨ stat.len ≤ count.toNat := by
  constructor
  · intro hends stat hfirst
    cases hrem : (src.lock world).rem with
    | nil => simp [Lister.first, hrem] at hfirst
    | cons entry entries =>
      have hpeek : src.peek (world.fs world.clock) entry = some stat := by
        simpa [Lister.first, hrem] using hfirst
      cases firstPut src (src.lock world) count.toNat entry entries [] world with
      | missing hpeek' hlock hrun => cases hpeek.symm.trans hpeek'
      | oversized hpeek' hlen hlock hrun =>
        cases hpeek.symm.trans hpeek'
        exact .inl hlen
      | full hpeek' hlen hcount hlock hrun =>
        rw [← hrem] at hrun
        obtain ⟨world', htake⟩ := Lister.take_of_fill_ok hrun
        rw [(hends [] world' htake).1 rfl] at hrem
        cases hrem
      | put hpeek' hlen hcount hlock hrun =>
        cases hpeek.symm.trans hpeek'
        exact .inr (by simpa using hcount)
  · intro hfirst data world' htake
    obtain ⟨left, hfill⟩ := Lister.fill_of_take_ok htake
    refine ⟨?_, fun hne => ?_⟩
    · intro heq
      subst heq
      cases hrem : (src.lock world).rem with
      | nil => rfl
      | cons entry entries =>
        rw [hrem] at hfill
        cases firstPut src (src.lock world) count.toNat entry entries [] world with
        | missing hpeek hlock hrun => cases hfill.symm.trans hrun
        | oversized hpeek hlen hlock hrun => cases hfill.symm.trans hrun
        | @full stat _ hpeek hlen hcount hlock hrun =>
          have hfits := hfirst stat (by simp [Lister.first, hrem, hpeek])
          simp only [List.length_nil] at hcount
          omega
        | @put stat world₁ hpeek hlen hcount hlock hrun =>
          obtain ⟨taken, hdata⟩ := Lister.fill_ok (hrun.symm.trans hfill)
          have hempty := congrArg List.length hdata
          have hmin := stat.le_len
          simp only [List.nil_append, List.length_append, encode_length hlen,
            List.length_nil] at hempty
          omega
    · obtain ⟨taken, rfl⟩ := Lister.fill_ok hfill
      cases taken with
      | nil => exact (hne rfl).elim
      | cons stat taken => exact ⟨stat, taken, rfl⟩

/-- A read that fails leaves the cursor alone exactly when the record it would
put first cannot be had. -/
theorem Lister.unmoved_iff {e : Abort} (h : (src.take count).run world = .error e world') :
    src.lock world' = src.lock world ↔
      ∀ stat, src.first world = some stat → 2^16 ≤ stat.len - 2 := by
  have hfill := Lister.fill_of_take_error h
  cases hrem : (src.lock world).rem with
  | nil =>
    rw [hrem] at hfill
    cases hfill
  | cons entry entries =>
    rw [hrem] at hfill
    have hfirst : src.first world = src.peek (world.fs world.clock) entry := by
      simp [Lister.first, hrem]
    rw [hfirst]
    cases firstPut src (src.lock world) count.toNat entry entries [] world with
    | missing hpeek hlock hrun =>
      cases hfill.symm.trans hrun
      refine ⟨fun _ stat hstat => ?_, fun _ => hlock⟩
      cases hpeek.symm.trans hstat
    | oversized hpeek hlen hlock hrun =>
      cases hfill.symm.trans hrun
      refine ⟨fun _ stat hstat => ?_, fun _ => hlock⟩
      cases hpeek.symm.trans hstat
      exact hlen
    | full hpeek hlen hcount hlock hrun => cases hfill.symm.trans hrun
    | put hpeek hlen hcount hlock hrun =>
      obtain ⟨left, hleft, hlock'⟩ := Lister.fill_error hlock (hrun.symm.trans hfill)
      constructor
      · intro hsame
        have hshort := hleft.length_le
        rw [hlock'] at hsame
        have hall : left = entry :: entries := (congrArg ListState.rem hsame).trans hrem
        rw [hall, List.length_cons] at hshort
        omega
      · intro hnone
        exact absurd hlen (Nat.not_lt.mpr (hnone _ hpeek))

end Take

end Lister

def dirLister (session : Session) (n : Nat) : Lister (ByteString × Metadata) where
  lock world := world.dirs n
  store := setDir n
  record := fun (name, meta_) => pure (stat session name meta_)
  peek _ entry := some (stat session entry.1 entry.2)
  lock_fs _ _ := rfl
  store_run state world := ⟨_, setDir_run n state world, rfl, if_pos rfl⟩
  record_ok {entry record world world'} h := by
    cases h
    exact ⟨rfl, rfl, rfl⟩
  record_error {entry e world world'} h := by cases h

theorem rootRecord_run (config : Config) (session : Session) (name : ByteString) (world : World) :
    ∃ world', world'.fs = world.fs ∧ world'.roots = world.roots ∧
      match rootEntry config session (world.fs world.clock) name with
      | some stat => (rootRecord config session name).run world = .ok stat world'
      | none => ∃ e, (rootRecord config session name).run world = .error e world' := by
  by_cases hrpc : name = "rpc"
  · refine ⟨world, rfl, rfl, ?_⟩
    rw [rootEntry, rootRecord, if_pos hrpc, if_pos hrpc]
    rfl
  · rw [rootEntry, rootRecord, if_neg hrpc, if_neg hrpc]
    cases config.shares.get name with
    | none => exact ⟨world, rfl, rfl, .panic, rfl⟩
    | some path =>
      let world' : World :=
        { world with accessed := path :: world.accessed, clock := world.clock + 1 }
      refine ⟨world', rfl, rfl, ?_⟩
      cases hmeta : (world.fs world.clock).metadata path with
      | ok meta_ =>
        have hrun : (metadata path).run world = .ok meta_ world' := access_run hmeta
        simp only [Option.bind_some, hmeta, Except.toOption, Option.map_some]
        exact bind_run_ok hrun _
      | error text =>
        have hrun : (metadata path).run world = .error (.err text) world' := access_run_error hmeta
        simp only [Option.bind_some, hmeta, Except.toOption, Option.map_none]
        exact ⟨.err text, bind_run_error hrun _⟩

def rootLister (config : Config) (session : Session) (n : Nat) : Lister ByteString where
  lock world := world.roots n
  store := setRoot n
  record := rootRecord config session
  peek := rootEntry config session
  lock_fs _ _ := rfl
  store_run state world := ⟨_, setRoot_run n state world, rfl, if_pos rfl⟩
  record_ok {name record world world'} h := by
    obtain ⟨world'', hfs, hroots, hrun⟩ := rootRecord_run config session name world
    cases hpeek : rootEntry config session (world.fs world.clock) name with
    | some record' =>
      rw [hpeek] at hrun
      cases h.symm.trans hrun
      exact ⟨rfl, hfs, congrFun hroots n⟩
    | none =>
      rw [hpeek] at hrun
      obtain ⟨e, hrun⟩ := hrun
      cases h.symm.trans hrun
  record_error {name e world world'} h := by
    obtain ⟨world'', hfs, hroots, hrun⟩ := rootRecord_run config session name world
    cases hpeek : rootEntry config session (world.fs world.clock) name with
    | some record' =>
      rw [hpeek] at hrun
      cases h.symm.trans hrun
    | none =>
      rw [hpeek] at hrun
      obtain ⟨e', hrun⟩ := hrun
      cases h.symm.trans hrun
      exact ⟨rfl, congrFun hroots n⟩

def OpenResource.IsListing (self : OpenResource) : Prop :=
  match self.inner with
  | .root _ | .dir _ _ => True
  | .file _ | .rpc => False

def OpenResource.lastOffset (self : OpenResource) (world : World) : UInt64 :=
  match self.inner with
  | .root n => (world.roots n).lastOffset
  | .dir _ n => (world.dirs n).lastOffset
  | .file _ | .rpc => 0

/-- The records of the entries that a read at `offset` finds still to come, as
the file system answers now. An entry without a record is one whose lookup
fails. -/
def OpenResource.toCome (self : OpenResource) (offset : UInt64) (world : World) :
    Option (List (Option Stat)) :=
  match self.inner with
  | .root n =>
    let rem := if offset = 0 then "rpc" :: self.handler.shares.keys else (world.roots n).rem
    some (rem.map (rootEntry self.handler self.session (world.fs world.clock)))
  | .dir path n =>
    let rem :=
      if offset = 0 then ((world.fs world.clock).readDir path).toOption.map listed
      else some (world.dirs n).rem
    rem.map fun rem => rem.map fun entry => some (Res.stat self.session entry.1 entry.2)
  | .file _ | .rpc => none

def OpenResource.SameCursor (self : OpenResource) (world world' : World) : Prop :=
  match self.inner with
  | .root n => world'.roots n = world.roots n
  | .dir _ n => world'.dirs n = world.dirs n
  | .file _ | .rpc => True

structure Opened (res : OpenResource) where
  α : Type
  src : Lister α
  same (world world' : World) : res.SameCursor world world' ↔ src.lock world' = src.lock world
  lastOffset (world : World) : res.lastOffset world = (src.lock world).lastOffset
  toCome {offset : UInt64} (h : offset ≠ 0) (world : World) : res.toCome offset world =
    some ((src.lock world).rem.map (src.peek (world.fs world.clock)))
  read_next {offset : UInt64} (count : UInt32) {world : World} (hoffset : offset ≠ 0)
    (hlast : res.lastOffset world = offset) :
    (res.read offset count).run world = (src.take count).run world
  read_start (count : UInt32) (world : World) :
    (∃ e world', (res.read 0 count).run world = .error e world' ∧ res.toCome 0 world = none) ∨
    ∃ world', (res.read 0 count).run world = (src.take count).run world' ∧
      res.toCome 0 world = some ((src.lock world').rem.map (src.peek (world'.fs world'.clock)))

theorem seekDir_next {path : Path} {n : Nat} {offset : UInt64} {world : World}
    (hoffset : offset ≠ 0) (hlast : (world.dirs n).lastOffset = offset) :
    (seekDir path n offset).run world = .ok () world := by
  rw [seekDir, bind_run_ok (EStateM.run_get _), if_neg hoffset, if_neg (not_not.mpr hlast.symm)]
  rfl

theorem seekRoot_next {config : Config} {n : Nat} {offset : UInt64} {world : World}
    (hoffset : offset ≠ 0) (hlast : (world.roots n).lastOffset = offset) :
    (seekRoot config n offset).run world = .ok () world := by
  rw [seekRoot, bind_run_ok (EStateM.run_get _), if_neg hoffset, if_neg (not_not.mpr hlast.symm)]
  rfl

theorem seekDir_error {path : Path} {n : Nat} {world : World} {text : String}
    (h : (world.fs world.clock).readDir path = .error text) :
    ∃ world', (seekDir path n 0).run world = .error (.err text) world' := by
  let cleared : DirState := { world.dirs n with rem := [] }
  let world' : World := { world with dirs := fun k => if k = n then cleared else world.dirs k }
  let world'' : World :=
    { world' with accessed := path :: world'.accessed, clock := world'.clock + 1 }
  have hreadDir : (readDir path).run world' = .error (.err text) world'' := access_run_error h
  refine ⟨world'', ?_⟩
  rw [seekDir, bind_run_ok (EStateM.run_get _), if_pos rfl,
    bind_run_ok (setDir_run n cleared world)]
  exact bind_run_error hreadDir _

def openedRootOf (handler : Config) (session : Session) (qid : Qid) (name : ByteString) (n : Nat) :
    Opened ⟨handler, session, qid, name, .root n⟩ where
  α := ByteString
  src := rootLister handler session n
  same _ _ := Iff.rfl
  lastOffset _ := rfl
  toCome {offset} h world := by simp [OpenResource.toCome, h, rootLister]
  read_next {offset} count {world} hoffset hlast :=
    bind_run_ok (seekRoot_next hoffset hlast) _
  read_start count world := by
    obtain ⟨world', hseek, hfs, hclock, hlock⟩ := seekRoot_zero handler n world
    refine .inr ⟨world', bind_run_ok hseek _, ?_⟩
    have hrem : ((rootLister handler session n).lock world').rem = "rpc" :: handler.shares.keys :=
      congrArg ListState.rem hlock
    rw [hrem, hfs, hclock]
    rfl

def openedDirOf (handler : Config) (session : Session) (qid : Qid) (name : ByteString) (path : Path)
    (n : Nat) : Opened ⟨handler, session, qid, name, .dir path n⟩ where
  α := ByteString × Metadata
  src := dirLister session n
  same _ _ := Iff.rfl
  lastOffset _ := rfl
  toCome {offset} h world := by simp [OpenResource.toCome, h, dirLister]
  read_next {offset} count {world} hoffset hlast := bind_run_ok (seekDir_next hoffset hlast) _
  read_start count world := by
    cases hdents : (world.fs world.clock).readDir path with
    | error text =>
      obtain ⟨world', hseek⟩ := seekDir_error hdents
      refine .inl ⟨.err text, world', bind_run_error hseek _, ?_⟩
      rw [OpenResource.toCome]
      simp [hdents, Except.toOption]
    | ok dents =>
      obtain ⟨world', hseek, hfs, hlock⟩ := seekDir_zero hdents
      refine .inr ⟨world', bind_run_ok hseek _, ?_⟩
      have hrem : ((dirLister session n).lock world').rem = listed dents :=
        congrArg ListState.rem hlock
      rw [hrem, OpenResource.toCome]
      simp [hdents, Except.toOption, dirLister]

theorem OpenResource.IsListing.opened {self : OpenResource} (h : self.IsListing) :
    Nonempty (Opened self) := by
  obtain ⟨handler, session, qid, name, inner⟩ := self
  cases inner with
  | root n => exact ⟨openedRootOf handler session qid name n⟩
  | dir path n => exact ⟨openedDirOf handler session qid name path n⟩
  | file n => exact h.elim
  | rpc => exact h.elim

theorem Opened.read_cases {self : OpenResource} (o : Opened self) {offset : UInt64} {world : World}
    (hoffset : offset = 0 ∨ self.lastOffset world = offset) (count : UInt32) :
    (∃ e world', (self.read offset count).run world = .error e world' ∧
      self.toCome offset world = none) ∨
    ∃ world', (self.read offset count).run world = (o.src.take count).run world' ∧
      self.toCome offset world =
        some ((o.src.lock world').rem.map (o.src.peek (world'.fs world'.clock))) := by
  by_cases hzero : offset = 0
  · subst hzero
    exact o.read_start count world
  · have hlast := hoffset.resolve_left hzero
    exact .inr ⟨world, o.read_next count hzero hlast, o.toCome hzero world⟩

theorem Lister.first_iff {α : Type} {src : Lister α} {world : World} {stat : Stat} :
    src.first world = some stat ↔ ∃ rest,
      (src.lock world).rem.map (src.peek (world.fs world.clock)) = some stat :: rest := by
  cases hrem : (src.lock world).rem with
  | nil => simp [Lister.first, hrem]
  | cons entry entries => simp [Lister.first, hrem]

/-- A read that succeeds returns nothing only at the end of the listing, and
else whole records. -/
def OpenResource.EmptyMeansEnd (self : OpenResource) (offset : UInt64) (count : UInt32)
    (world : World) : Prop :=
  ∀ data world', (self.read offset count).run world = .ok data world' →
    (data = [] → self.toCome offset world = some []) ∧
    (data ≠ [] → ∃ stat taken, data = encodeAll (stat :: taken))

/-- An empty read means the end of a directory exactly when the next record, if
there is one to be had, fits in the count. -/
theorem empty_read_iff (self : OpenResource) (offset : UInt64) (count : UInt32) (world : World)
    (hlisting : self.IsListing) (hoffset : offset = 0 ∨ self.lastOffset world = offset) :
    self.EmptyMeansEnd offset count world ↔
      ∀ stat rest, self.toCome offset world = some (some stat :: rest) →
        2^16 ≤ stat.len - 2 ∨ stat.len ≤ count.toNat := by
  obtain ⟨o⟩ := hlisting.opened
  obtain ⟨e, world', hrun, hnone⟩ | ⟨world', hrun, hcome⟩ := o.read_cases hoffset count
  · constructor
    · intro _ stat rest hsome
      rw [hnone] at hsome
      cases hsome
    · intro _ data world'' hok
      cases hok.symm.trans hrun
  · have hempty : self.toCome offset world = some [] ↔ (o.src.lock world').rem = [] := by
      rw [hcome, Option.some.injEq, List.map_eq_nil_iff]
    have hfirst (stat : Stat) : (∃ rest, self.toCome offset world = some (some stat :: rest)) ↔
        o.src.first world' = some stat := by
      rw [hcome, Lister.first_iff]
      simp only [Option.some.injEq]
    unfold OpenResource.EmptyMeansEnd
    rw [hrun, hempty, o.src.empty_iff]
    exact forall_congr' fun stat => by rw [← hfirst, forall_exists_index]

inductive OpenResource.Reached (self : OpenResource) : World → Prop
  | opened {res : PathResource} {mode : UInt8} {world world' : World}
      (hopen : (res.open_ mode).run world = .ok self world') : Reached self world'
  | read {offset : UInt64} {count : UInt32} {data : Bytes} {world world' : World}
      (h : Reached self world) (hread : (self.read offset count).run world = .ok data world') :
      Reached self world'
  | failed {offset : UInt64} {count : UInt32} {e : Abort} {world world' : World}
      (h : Reached self world) (hread : (self.read offset count).run world = .error e world') :
      Reached self world'

def openedWorld (fs : Nat → Fs) : World := World.withMutex { fs }

theorem openedRoot_reached (fs : Nat → Fs) : openedRoot.Reached (openedWorld fs) :=
  have hopen : ((PathResource.root mainConfig ⟨1, "glenda"⟩).open_ 0).run { fs } =
      .ok openedRoot (openedWorld fs) := rfl
  .opened hopen

theorem empty_read_iff_rpc :
    openedRoot.EmptyMeansEnd 0 100 (openedWorld fun _ => Fs.flat []) := by
  refine (empty_read_iff openedRoot 0 100 _ trivial (.inl rfl)).mpr fun stat rest hcome => .inr ?_
  obtain rfl : rpcStat ⟨1, "glenda"⟩ = stat :=
    Option.some.inj (List.cons.inj (Option.some.inj hcome)).1
  decide

/-- A root that has just been opened, asked for one byte: it returns none, with
everything still to come. -/
theorem empty_read_counterexample :
    ¬∀ (self : OpenResource) (offset : UInt64) (count : UInt32) (world : World),
      self.Reached world → self.IsListing → 0 < count →
      offset = 0 ∨ self.lastOffset world = offset → self.EmptyMeansEnd offset count world := by
  intro h
  have hreached := openedRoot_reached fun _ => Fs.flat []
  have hends := h openedRoot 0 1 _ hreached trivial (by decide) (.inl rfl)
  have hread : ∃ world', (openedRoot.read 0 1).run (openedWorld fun _ => Fs.flat []) =
      .ok [] world' := ⟨_, rfl⟩
  obtain ⟨world', hread⟩ := hread
  have hcome := (hends [] world' hread).1 rfl
  cases hcome

/-- A failed read leaves the cursor where it was, so that a retry in a file
system that has a record for every entry to come returns as many of them, from
the first on, as fit. -/
def OpenResource.LosesNothing (self : OpenResource) (offset : UInt64) (count : UInt32)
    (world world' : World) : Prop :=
  self.SameCursor world world' ∧ ∀ fs stats,
    self.toCome offset { world with fs := fun _ => fs } = some (stats.map some) →
    (∀ stat ∈ stats, stat.len - 2 < 2^16) → ∃ taken rest world'',
      Cuts count.toNat stats taken rest ∧
      (self.read offset count).run { world' with fs := fun _ => fs } =
        .ok (encodeAll taken) world''

/-- The records a repaired file system has for the entries of a cursor. -/
theorem Lister.record_run {α : Type} (src : Lister α) {fs : Fs} {entry : α} {stat : Stat}
    {world : World} (hfs : world.fs = fun _ => fs) (hpeek : src.peek fs entry = some stat) :
    ∃ world', (src.record entry).run world = .ok stat world' ∧ (world'.fs = fun _ => fs) ∧
      src.lock world' = src.lock world := by
  have hpeek' : src.peek (world.fs world.clock) entry = some stat := by rw [hfs, hpeek]
  cases hrun : (src.record entry).run world with
  | error e world' => cases hpeek'.symm.trans (src.record_error hrun).1
  | ok stat' world' =>
    obtain ⟨hsome, hsame, hlock⟩ := src.record_ok hrun
    cases hpeek'.symm.trans hsome
    exact ⟨world', rfl, hsame.trans hfs, hlock⟩

theorem forall₂_of_map_eq {β γ : Type} {f : β → Option γ} {as : List β} {bs : List γ}
    (h : as.map f = bs.map some) : List.Forall₂ (fun a b => f a = some b) as bs := by
  induction as generalizing bs with
  | nil =>
    obtain rfl := List.map_eq_nil_iff.mp h.symm
    exact .nil
  | cons a as ih =>
    cases bs with
    | nil => cases h
    | cons b bs =>
      obtain ⟨hhead, htail⟩ := List.cons.inj h
      exact .cons hhead (ih htail)

/-- A directory read that fails loses nothing exactly when it fails at the
first entry to come: at any later one it has taken those before it off the
cursor and thrown their records away. -/
theorem failed_read_iff (self : OpenResource) (offset : UInt64) (count : UInt32)
    (world world' : World) (text : String) (hlisting : self.IsListing) (hoffset : offset ≠ 0)
    (hlast : self.lastOffset world = offset)
    (hfail : (self.read offset count).run world = .error (.err text) world') :
    self.LosesNothing offset count world world' ↔
      ∀ stat rest, self.toCome offset world = some (some stat :: rest) → 2^16 ≤ stat.len - 2 := by
  obtain ⟨o⟩ := hlisting.opened
  rw [o.read_next count hoffset hlast] at hfail
  have hunmoved := Lister.unmoved_iff hfail
  have hfirst (stat : Stat) : (∃ rest, self.toCome offset world = some (some stat :: rest)) ↔
      o.src.first world = some stat := by
    rw [o.toCome hoffset, Lister.first_iff]
    simp only [Option.some.injEq]
  have hcondition : (∀ stat rest, self.toCome offset world = some (some stat :: rest) →
      2^16 ≤ stat.len - 2) ↔ o.src.lock world' = o.src.lock world := by
    rw [hunmoved]
    exact forall_congr' fun stat => by rw [← hfirst, forall_exists_index]
  rw [hcondition]
  constructor
  · intro h
    obtain ⟨hsame, -⟩ := h
    exact (o.same world world').mp hsame
  · intro hlock
    refine ⟨(o.same world world').mpr hlock, fun fs stats hcome hfit => ?_⟩
    let repaired : World := { world' with fs := fun _ => fs }
    have hlock' : o.src.lock repaired = o.src.lock world := (o.src.lock_fs world' _).trans hlock
    have hlast' : self.lastOffset repaired = offset := by
      rw [o.lastOffset, hlock', ← o.lastOffset, hlast]
    rw [o.toCome hoffset, o.src.lock_fs, Option.some.injEq] at hcome
    have hrem : List.Forall₂ (fun entry stat => o.src.peek fs entry = some stat)
        (o.src.lock repaired).rem stats := by
      rw [hlock']
      exact forall₂_of_map_eq hcome
    have hstore (state : ListState o.α) (w : World) (hw : w.fs = fun _ => fs) : ∃ w',
        (o.src.store state).run w = .ok () w' ∧ (w'.fs = fun _ => fs) ∧ o.src.lock w' = state := by
      obtain ⟨w', hrun, hsame, hstate⟩ := o.src.store_run state w
      exact ⟨w', hrun, hsame.trans hw, hstate⟩
    obtain ⟨taken, rest, world'', hcuts, htake, -⟩ :=
      take_cuts hstore (fun _ _ _ hpeek hw => o.src.record_run hw hpeek) count rfl hrem hfit
    exact ⟨taken, rest, world'', hcuts, (o.read_next count hoffset hlast').trans htake⟩

def failingAt (t₀ : Nat) (t : Nat) : Fs :=
  if t = t₀ then { Fs.flat [] with metadata := fun _ => .error "Input/output error (os error 5)" }
  else Fs.flat []

/-- What becomes of a root that is read for its first record and then for the
rest, while the lookup `t₀` fails: the entries before and after the failure,
and the record that was to come first. -/
def readTwice (t₀ : Nat) : Option (UInt64 × List ByteString × Option Stat × List ByteString) :=
  match (openedRoot.read 0 100).run (openedWorld (failingAt t₀)) with
  | .ok _ world =>
    match (openedRoot.read 70 1000).run world with
    | .error (.err _) world' => some (openedRoot.lastOffset world, (world.roots 0).rem,
        ((openedRoot.toCome 70 world).bind List.head?).join, (world'.roots 0).rem)
    | _ => none
  | _ => none

theorem readTwice_some {t₀ : Nat} {last : UInt64} {rem rem' : List ByteString}
    {first : Option Stat} (h : readTwice t₀ = some (last, rem, first, rem')) :
    ∃ text world world', openedRoot.Reached world ∧ openedRoot.lastOffset world = last ∧
      (openedRoot.read 70 1000).run world = .error (.err text) world' ∧
      (world.roots 0).rem = rem ∧ (world'.roots 0).rem = rem' ∧
      ((openedRoot.toCome 70 world).bind List.head?).join = first := by
  unfold readTwice at h
  cases hread : (openedRoot.read 0 100).run (openedWorld (failingAt t₀)) with
  | error e world =>
    rw [hread] at h
    cases h
  | ok data world =>
    simp only [hread] at h
    cases hfail : (openedRoot.read 70 1000).run world with
    | ok data' world' =>
      rw [hfail] at h
      cases h
    | error e world' =>
      cases e with
      | panic =>
        rw [hfail] at h
        cases h
      | err text =>
        rw [hfail] at h
        cases h
        exact ⟨text, world, world', .read (openedRoot_reached _) hread, rfl, hfail, rfl, rfl, rfl⟩

theorem failed_read_iff_first : ∃ text world world', openedRoot.Reached world ∧
    (openedRoot.read 70 1000).run world = .error (.err text) world' ∧
    openedRoot.LosesNothing 70 1000 world world' := by
  have hrun : readTwice 1 = some (70, ["forfun", "ff2"], none, ["forfun", "ff2"]) := by
    decide +kernel
  obtain ⟨text, world, world', hreached, hlast, hfail, -, -, hfirst⟩ := readTwice_some hrun
  refine ⟨text, world, world', hreached, hfail, ?_⟩
  refine (failed_read_iff openedRoot 70 1000 world world' text trivial (by decide) hlast hfail).mpr ?_
  intro stat rest hcome
  simp [hcome] at hfirst

/-- The second share fails: the first one is gone from the cursor, and nothing
was returned. -/
theorem failed_read_counterexample :
    ¬∀ (self : OpenResource) (offset : UInt64) (count : UInt32) (world world' : World)
      (text : String), self.Reached world → self.IsListing → offset ≠ 0 →
      self.lastOffset world = offset →
      (self.read offset count).run world = .error (.err text) world' →
      self.LosesNothing offset count world world' := by
  intro h
  have hrun : readTwice 2 = some (70, ["forfun", "ff2"],
      some (stat ⟨1, "glenda"⟩ "forfun" ⟨.dir, 4096, 2⟩), ["ff2"]) := by decide +kernel
  obtain ⟨text, world, world', hreached, hlast, hfail, hrem, hrem', -⟩ := readTwice_some hrun
  obtain ⟨hsame, -⟩ := h openedRoot 70 1000 world world' text hreached trivial (by decide) hlast hfail
  rw [congrArg ListState.rem hsame, hrem] at hrem'
  exact absurd hrem' (by decide)

end NineWire.Res

import NineWire.Res.Path
import NineWire.Stateful
import NineWire.Wire.Records
import Mathlib.Data.List.Forall2

/-! The listing of a directory: the records it is made of, and what a read
returns of them. A read at 0 starts over, a read where the last one stopped
goes on, and a read anywhere else is refused. -/
namespace NineWire.Res
open NineWire.Wire NineWire.Server NineWire.Os NineWire.Stateful

structure Cuts (count : Nat) (stats taken rest : List Stat) : Prop where
  append : stats = taken ++ rest
  fits : lenAll taken ≤ count
  full : ∀ next ∈ rest.head?, count < lenAll taken + next.len

def rootEntry (config : Config) (session : Session) (fs : Fs) (name : ByteString) : Option Stat :=
  if name = "rpc" then some (rpcStat session)
  else (config.shares.get name).bind fun path =>
    (fs.metadata path).toOption.map (stat session name)

def rootRecords (config : Config) (session : Session) (fs : Fs) : Option (List Stat) :=
  ("rpc" :: config.shares.keys).mapM (rootEntry config session fs)

def dirRecords (session : Session) (fs : Fs) (path : Path) : Option (List Stat) :=
  (fs.readDir path).toOption.map fun dents =>
    (listed dents).map fun entry => stat session entry.1 entry.2

def PathResource.records (self : PathResource) (fs : Fs) : Option (List Stat) :=
  match self.inner with
  | .root => rootRecords self.handler self.session fs
  | .rpc => none
  | .onShare _ _ => self.realPath.bind (dirRecords self.session fs)

section Listing
/-- The loop of a listing takes as many records as fit. `J` are the worlds in
which the mutex holds the entries given. -/
theorem fill_cuts {α : Type} {record : α → Call World Stat} {remove : List α → Call World Unit}
    {J : List α → World → Prop} {Rec : α → Stat → Prop}
    (hrecord : ∀ entry stat rem world, Rec entry stat → J rem world →
      ∃ world', (record entry).run world = .ok stat world' ∧ J rem world')
    (hremove : ∀ rem rem' world, J rem world →
      ∃ world', (remove rem').run world = .ok () world' ∧ J rem' world')
    {count : Nat} {entries : List α} {stats : List Stat} (h : List.Forall₂ Rec entries stats)
    (hfit : ∀ stat ∈ stats, stat.len - 2 < 2^16) {buf : Bytes} (hbuf : buf.length ≤ count)
    {world : World} (hJ : J entries world) :
    ∃ taken rest left world', Cuts (count - buf.length) stats taken rest ∧
      List.Forall₂ Rec left rest ∧ J left world' ∧
      (fill record remove count entries buf).run world = .ok (buf ++ encodeAll taken) world' := by
  induction h generalizing buf world with
  | nil => exact ⟨[], [], [], world, ⟨rfl, Nat.zero_le _, nofun⟩, .nil, hJ, by simp [encodeAll]; rfl⟩
  | @cons entry stat entries stats hrec hrest ih =>
    obtain ⟨world', hrun, hJ'⟩ := hrecord entry stat _ world hrec hJ
    have hstat := hfit stat List.mem_cons_self
    have hlen := encode_length hstat
    rw [fill, bind_run_ok hrun, putStat_run hstat]
    by_cases hfull : count < (buf ++ stat.encode).length
    · refine ⟨[], stat :: stats, entry :: entries, world', ⟨rfl, Nat.zero_le _, ?_⟩,
        .cons hrec hrest, hJ', ?_⟩
      · intro next heq
        cases heq
        simp only [List.length_append, hlen] at hfull
        simp only [lenAll, List.map_nil, List.sum_nil]
        omega
      · simp only [if_pos hfull, encodeAll, List.flatMap_nil, List.append_nil]
        rfl
    · obtain ⟨world'', hremoved, hJ''⟩ := hremove _ entries world' hJ'
      simp only [List.length_append, hlen] at hfull
      have hbuf' : (buf ++ stat.encode).length ≤ count := by simp [hlen]; omega
      obtain ⟨taken, rest, left, world''', hcuts, hleft, hJ''', hfill⟩ :=
        ih (fun stat' hstat' => hfit stat' (List.mem_cons_of_mem stat hstat')) hbuf' hJ''
      refine ⟨stat :: taken, rest, left, world''', ⟨by simp [hcuts.append], ?_, ?_⟩, hleft, hJ''', ?_⟩
      · have hfits := hcuts.fits
        simp only [List.length_append, hlen] at hfits
        simp only [lenAll, List.map_cons, List.sum_cons] at hfits ⊢
        omega
      · intro next hnext
        have hnext' := hcuts.full next hnext
        simp only [List.length_append, hlen] at hnext'
        simp only [lenAll, List.map_cons, List.sum_cons] at hnext' ⊢
        omega
      · simp only [if_neg (Nat.not_lt.mpr hbuf')]
        rw [bind_run_ok hremoved, hfill]
        simp [encodeAll]

theorem take_cuts {α : Type} {lock : World → ListState α} {store : ListState α → Call World Unit}
    {record : α → Call World Stat} {Rec : α → Stat → Prop} {fs : Nat → Fs}
    (hstore : ∀ state world, World.fs world = fs → ∃ world',
      (store state).run world = .ok () world' ∧ world'.fs = fs ∧ lock world' = state)
    (hrecord : ∀ entry stat world, Rec entry stat → World.fs world = fs → ∃ world',
      (record entry).run world = .ok stat world' ∧ world'.fs = fs ∧ lock world' = lock world)
    {rem : List Stat} {world : World} (count : UInt32) (hfs : world.fs = fs)
    (hrem : List.Forall₂ Rec (lock world).rem rem) (hfit : ∀ stat ∈ rem, stat.len - 2 < 2^16) :
    ∃ taken rest world', Cuts count.toNat rem taken rest ∧
      (take lock store record count).run world = .ok (encodeAll taken) world' ∧ world'.fs = fs ∧
      (lock world').lastOffset = (lock world).lastOffset + UInt64.ofNat (lenAll taken) ∧
      List.Forall₂ Rec (lock world').rem rest := by
  let J : List α → World → Prop := fun left world' =>
    world'.fs = fs ∧ lock world' = ⟨left, (lock world).lastOffset⟩
  have hrecord' : ∀ entry stat left world', Rec entry stat → J left world' →
      ∃ world'', (record entry).run world' = .ok stat world'' ∧ J left world'' := by
    intro entry stat left world' hrec h
    obtain ⟨hfs, hlock'⟩ := h
    obtain ⟨world'', hrun, hfs', hsame⟩ := hrecord entry stat world' hrec hfs
    exact ⟨world'', hrun, hfs', hsame.trans hlock'⟩
  have hremove : ∀ left left' world', J left world' → ∃ world'',
      (store { lock world with rem := left' }).run world' = .ok () world'' ∧ J left' world'' := by
    intro left left' world' h
    obtain ⟨hfs, -⟩ := h
    exact hstore { lock world with rem := left' } world' hfs
  obtain ⟨taken, rest, left, world', hcuts, hleft, ⟨hfs, hlock'⟩, hfill⟩ :=
    fill_cuts hrecord' hremove hrem hfit (List.length_nil.trans_le count.toNat.zero_le) ⟨hfs, rfl⟩
  have hlen : (encodeAll taken).length = lenAll taken :=
    encodeAll_length fun stat hstat => hfit stat (hcuts.append ▸ List.mem_append_left rest hstat)
  obtain ⟨world'', hstored, hfs', hlock''⟩ := hstore
    { lock world' with
      lastOffset := (lock world').lastOffset + UInt64.ofNat (encodeAll taken).length } world' hfs
  refine ⟨taken, rest, world'', hcuts, ?_, hfs', ?_, ?_⟩
  · have hget (world : World) : (get : Call World World).run world = .ok world world := rfl
    rw [take, bind_run_ok (hget world), bind_run_ok hfill, bind_run_ok (hget world')]
    exact bind_run_ok hstored _
  · rw [hlock'', hlock', hlen]
  · rw [hlock'', hlock']
    exact hleft

end Listing

structure Source (α : Type) (fs : Nat → Fs) (records : List Stat) where
  Rec : α → Stat → Prop
  lock : World → ListState α
  store : ListState α → Call World Unit
  record : α → Call World Stat
  seek : UInt64 → Call World Unit
  store_run (state : ListState α) {world : World} (h : world.fs = fs) :
    ∃ world', (store state).run world = .ok () world' ∧ world'.fs = fs ∧ lock world' = state
  record_run {entry : α} {stat : Stat} {world : World} (hrec : Rec entry stat)
    (h : world.fs = fs) : ∃ world', (record entry).run world = .ok stat world' ∧
      world'.fs = fs ∧ lock world' = lock world
  seek_start {world : World} (h : world.fs = fs) (hnew : (lock world).lastOffset = 0) :
    ∃ entries world', (seek 0).run world = .ok () world' ∧ world'.fs = fs ∧
      lock world' = ⟨entries, 0⟩ ∧ List.Forall₂ Rec entries records
  seek_next {offset : UInt64} {world : World} (hoffset : offset ≠ 0)
    (hlast : (lock world).lastOffset = offset) : (seek offset).run world = .ok () world
  seek_refused {offset : UInt64} {world : World} (hoffset : offset ≠ 0)
    (hlast : (lock world).lastOffset ≠ offset) : ∃ text world',
      (seek offset).run world = .error (.err text) world' ∧ (asBytes text).length ≤ 1000

section Source
variable {α : Type} {fs : Nat → Fs} {records rem : List Stat} {src : Source α fs records}
  {world : World} {last offset : UInt64}

def Source.read (src : Source α fs records) (offset : UInt64) (count : UInt32) : Call World Bytes := do
  src.seek offset
  take src.lock src.store src.record count

structure Source.At (src : Source α fs records) (rem : List Stat) (last : UInt64) (world : World) :
    Prop where
  fs : world.fs = fs
  last : (src.lock world).lastOffset = last
  rem : List.Forall₂ src.Rec (src.lock world).rem rem

theorem Source.take_run (count : UInt32) (hfit : ∀ stat ∈ rem, stat.len - 2 < 2^16)
    (h : src.At rem last world) : ∃ taken rest world', Cuts count.toNat rem taken rest ∧
      (take src.lock src.store src.record count).run world = .ok (encodeAll taken) world' ∧
      src.At rest (last + UInt64.ofNat (lenAll taken)) world' := by
  obtain ⟨taken, rest, world', hcuts, htake, hfs, hlast, hrest⟩ :=
    take_cuts (fun state _ => src.store_run state) (fun _ _ _ hrec => src.record_run hrec) count
      h.fs h.rem hfit
  exact ⟨taken, rest, world', hcuts, htake, hfs, by rw [hlast, h.last], hrest⟩

theorem Source.at_new (hfs : world.fs = fs) (hlock : src.lock world = {}) :
    src.At [] 0 world :=
  ⟨hfs, by rw [hlock], by rw [hlock]; exact .nil⟩

/-- The first read of a listing that is new. -/
theorem Source.read_start (count : UInt32) (hfit : ∀ stat ∈ records, stat.len - 2 < 2^16)
    (h : src.At rem 0 world) :
    ∃ taken rest world', Cuts count.toNat records taken rest ∧
      (src.read 0 count).run world = .ok (encodeAll taken) world' ∧
      src.At rest (UInt64.ofNat (lenAll taken)) world' := by
  obtain ⟨entries, world', hseek, hfs, hlock, hrecords⟩ := src.seek_start h.fs h.last
  have hstart : src.At records 0 world' := ⟨hfs, by rw [hlock], by rwa [hlock]⟩
  obtain ⟨taken, rest, world'', hcuts, htake, hat⟩ := Source.take_run count hfit hstart
  refine ⟨taken, rest, world'', hcuts, ?_, by simpa using hat⟩
  rw [Source.read, bind_run_ok hseek, htake]

theorem Source.read_next (count : UInt32) (hfit : ∀ stat ∈ rem, stat.len - 2 < 2^16)
    (h : src.At rem last world) (hlast : last ≠ 0) :
    ∃ taken rest world', Cuts count.toNat rem taken rest ∧
      (src.read last count).run world = .ok (encodeAll taken) world' ∧
      src.At rest (last + UInt64.ofNat (lenAll taken)) world' := by
  obtain ⟨taken, rest, world', hcuts, htake, hat⟩ := Source.take_run count hfit h
  refine ⟨taken, rest, world', hcuts, ?_, hat⟩
  rw [Source.read, bind_run_ok (src.seek_next hlast h.last), htake]

theorem Source.read_refused (count : UInt32) (h : src.At rem last world) (hoffset : offset ≠ 0)
    (hlast : offset ≠ last) : ∃ text world',
      (src.read offset count).run world = .error (.err text) world' ∧
        (asBytes text).length ≤ 1000 := by
  have hother : (src.lock world).lastOffset ≠ offset := by
    rw [h.last]
    exact hlast.symm
  obtain ⟨text, world', hseek, hlen⟩ := src.seek_refused hoffset hother
  exact ⟨text, world', bind_run_error hseek _, hlen⟩

end Source

theorem setDir_run (n : Nat) (state : DirState) (world : World) : (setDir n state).run world =
    .ok () { world with dirs := fun k => if k = n then state else world.dirs k } := rfl

theorem setRoot_run (n : Nat) (state : RootState) (world : World) : (setRoot n state).run world =
    .ok () { world with roots := fun k => if k = n then state else world.roots k } := rfl

theorem syscall_run {α : Type} {call : Fs → Except String α} {a : α} {world : World}
    (h : call (world.fs world.clock) = .ok a) :
    (syscall call).run world = .ok a { world with clock := world.clock + 1 } := by
  simp only [syscall, EStateM.run_bind, EStateM.run_get, EStateM.run_set, h]
  rfl

theorem syscall_run_error {α : Type} {call : Fs → Except String α} {text : String} {world : World}
    (h : call (world.fs world.clock) = .error text) :
    (syscall call).run world = .error (.err text) { world with clock := world.clock + 1 } := by
  simp only [syscall, EStateM.run_bind, EStateM.run_get, EStateM.run_set, h]
  rfl

theorem access_run {α : Type} {call : Fs → Path → Except String α} {path : Path} {a : α}
    {world : World} (h : call (world.fs world.clock) path = .ok a) :
    (access call path).run world =
      .ok a { world with accessed := path :: world.accessed, clock := world.clock + 1 } :=
  @syscall_run α (fun fs => call fs path) a { world with accessed := path :: world.accessed } h

theorem access_run_error {α : Type} {call : Fs → Path → Except String α} {path : Path}
    {text : String} {world : World} (h : call (world.fs world.clock) path = .error text) :
    (access call path).run world = .error (.err text)
      { world with accessed := path :: world.accessed, clock := world.clock + 1 } :=
  @syscall_run_error α (fun fs => call fs path) text
    { world with accessed := path :: world.accessed } h

theorem toOption_eq_some {ε α : Type} {x : Except ε α} {a : α} (h : x.toOption = some a) :
    x = .ok a := by
  cases x with
  | ok b =>
    cases h
    rfl
  | error e => cases h

theorem mapM_forall₂ {β γ : Type} {f : β → Option γ} {as : List β} {bs : List γ}
    (h : as.mapM f = some bs) : List.Forall₂ (fun a b => f a = some b) as bs := by
  induction as generalizing bs with
  | nil =>
    cases h
    exact .nil
  | cons a as ih =>
    rw [List.mapM_cons] at h
    obtain ⟨b, hb, h⟩ := Option.bind_eq_some_iff.mp h
    obtain ⟨bs', hbs, h⟩ := Option.bind_eq_some_iff.mp h
    cases h
    exact .cons hb (ih hbs)

theorem forall₂_forall {β γ : Type} {R : Nat → β → γ → Prop} {as : List β} {bs : List γ}
    (h : ∀ t, List.Forall₂ (R t) as bs) : List.Forall₂ (fun a b => ∀ t, R t a b) as bs := by
  induction as generalizing bs with
  | nil =>
    cases h 0
    exact .nil
  | cons a as ih =>
    cases bs with
    | nil => cases h 0
    | cons b bs =>
      exact .cons (fun t => (List.forall₂_cons.mp (h t)).1)
        (ih fun t => (List.forall₂_cons.mp (h t)).2)

/-- Starting over at 0 lists the directory anew; the last offset stays. -/
theorem seekDir_zero {path : Path} {n : Nat} {world : World} {dents : List DirEntry}
    (hdents : (world.fs world.clock).readDir path = .ok dents) :
    ∃ world', (seekDir path n 0).run world = .ok () world' ∧ world'.fs = world.fs ∧
      world'.dirs n = ⟨listed dents, (world.dirs n).lastOffset⟩ := by
  let cleared : DirState := { world.dirs n with rem := [] }
  let listing : DirState := { world.dirs n with rem := listed dents }
  let world' : World := { world with dirs := fun k => if k = n then cleared else world.dirs k }
  let world'' : World :=
    { world' with accessed := path :: world'.accessed, clock := world'.clock + 1 }
  have hreadDir : (readDir path).run world' = .ok dents world'' := access_run hdents
  have hseek : (seekDir path n 0).run world = .ok ()
      { world'' with dirs := fun k => if k = n then listing else world''.dirs k } := by
    rw [seekDir, bind_run_ok (EStateM.run_get _), if_pos rfl,
      bind_run_ok (setDir_run n cleared world), bind_run_ok hreadDir]
    exact setDir_run n _ _
  exact ⟨_, hseek, rfl, if_pos rfl⟩

theorem seekRoot_zero (config : Config) (n : Nat) (world : World) :
    ∃ world', (seekRoot config n 0).run world = .ok () world' ∧ world'.fs = world.fs ∧
      world'.clock = world.clock ∧ world'.roots n = ⟨"rpc" :: config.shares.keys, 0⟩ := by
  let listing : RootState := { rem := "rpc" :: config.shares.keys, lastOffset := 0 }
  have hseek : (seekRoot config n 0).run world = .ok ()
      { world with roots := fun k => if k = n then listing else world.roots k } := by
    rw [seekRoot, bind_run_ok (EStateM.run_get _), if_pos rfl]
    exact setRoot_run n _ _
  exact ⟨_, hseek, rfl, rfl, if_pos rfl⟩

def dirSource (session : Session) (path : Path) (n : Nat) (fs : Nat → Fs) (records : List Stat)
    (hrecords : ∀ t, dirRecords session (fs t) path = some records) :
    Source (ByteString × Metadata) fs records where
  Rec entry record := stat session entry.1 entry.2 = record
  lock world := world.dirs n
  store := setDir n
  record := fun (name, meta_) => pure (stat session name meta_)
  seek := seekDir path n
  store_run state world h := ⟨_, setDir_run n state world, h, if_pos rfl⟩
  record_run {entry} {record} {world} hrec h := ⟨world, by rw [← hrec]; rfl, h, rfl⟩
  seek_start {world} h hnew := by
    obtain ⟨dents, hdents, hlist⟩ := Option.map_eq_some_iff.mp (hrecords world.clock)
    have hcall : (world.fs world.clock).readDir path = .ok dents := by
      rw [h, toOption_eq_some hdents]
    obtain ⟨world', hseek, hfs, hlock⟩ := seekDir_zero hcall
    refine ⟨listed dents, world', hseek, hfs.trans h, by rw [hlock, hnew], ?_⟩
    rw [← hlist, List.forall₂_map_right_iff]
    exact List.forall₂_same.mpr fun _ _ => rfl
  seek_next {offset} {world} hoffset hlast := by
    rw [seekDir, bind_run_ok (EStateM.run_get _), if_neg hoffset, if_neg (not_not.mpr hlast.symm)]
    rfl
  seek_refused {offset} {world} hoffset hlast := by
    refine ⟨"Invalid argument", world, ?_, by decide⟩
    rw [seekDir, bind_run_ok (EStateM.run_get _), if_neg hoffset, if_pos (Ne.symm hlast)]
    rfl

def World.withMutex (world : World) : World :=
  { world with
    opened := world.opened + 1
    roots := fun n => if n = world.opened then {} else world.roots n
    dirs := fun n => if n = world.opened then {} else world.dirs n }

theorem newMutex_run (world : World) : newMutex.run world = .ok world.opened world.withMutex := rfl

theorem realPathUnwrap_run {res : PathResource} {path : Path} (h : res.realPath = some path)
    (world : World) : res.realPathUnwrap.run world = .ok path world := by
  rw [PathResource.realPathUnwrap, h]
  rfl

/-- A directory on a share opens without a look at the file system. -/
theorem open_dir_run {res : PathResource} {share : ByteString} {rem : List ByteString} {path : Path}
    (hinner : res.inner = .onShare share rem) (hpath : res.realPath = some path)
    (hqid : res.qid.type_ &&& qtdir = qtdir) (world : World) : (res.open_ 0).run world =
      .ok ⟨res.handler, res.session, res.qid, res.name, .dir path world.opened⟩
        world.withMutex := by
  have hnew : (OpenResource.new res.handler res.session res.name path res.qid).run world =
      .ok ⟨res.handler, res.session, res.qid, res.name, .dir path world.opened⟩
        world.withMutex := by
    rw [OpenResource.new, if_pos hqid, bind_run_ok (newMutex_run world)]
    rfl
  unfold PathResource.open_
  simp only [hinner]
  rw [← hnew]
  exact bind_run_ok (realPathUnwrap_run hpath world) _

inductive Opening (res : PathResource) (world : World) : OpenResource → World → Prop
  | root (hinner : res.inner = .root) :
      Opening res world ⟨res.handler, res.session, rootQid, "/", .root world.opened⟩ world.withMutex
  | rpc (hinner : res.inner = .rpc) :
      Opening res world (OpenResource.rpc res.handler res.session) world
  | dir {share rem path} (hinner : res.inner = .onShare share rem) (hpath : res.realPath = some path)
      (hqid : res.qid.type_ &&& qtdir = qtdir) :
      Opening res world ⟨res.handler, res.session, res.qid, res.name, .dir path world.opened⟩
        world.withMutex
  | file {share rem path file world'} (hinner : res.inner = .onShare share rem)
      (hpath : res.realPath = some path) (hqid : res.qid.type_ &&& qtdir ≠ qtdir)
      (hfile : (openFile path).run world = .ok file world') :
      Opening res world ⟨res.handler, res.session, res.qid, res.name, .file file⟩ world'

theorem open_cases {res : PathResource} {mode : UInt8} {self : OpenResource} {world world' : World}
    (h : (res.open_ mode).run world = .ok self world') : Opening res world self world' := by
  unfold PathResource.open_ at h
  cases hinner : res.inner with
  | root =>
    simp only [hinner] at h
    split at h
    · cases h
    · cases h
      exact .root hinner
  | rpc =>
    simp only [hinner] at h
    split at h
    · cases h
    · cases h
      exact .rpc hinner
  | onShare share rem =>
    simp only [hinner] at h
    split at h
    · cases h
    · cases hpath : res.realPath with
      | none =>
        rw [PathResource.realPathUnwrap, hpath] at h
        cases h
      | some path =>
        rw [PathResource.realPathUnwrap, hpath] at h
        replace h : (OpenResource.new res.handler res.session res.name path res.qid).run world =
          .ok self world' := h
        unfold OpenResource.new at h
        split at h
        · rename_i hqid
          cases h
          exact .dir hinner hpath hqid
        · rename_i hqid
          cases hfile : (openFile path).run world with
          | ok file world'' =>
            rw [bind_run_ok hfile] at h
            cases h
            exact .file hinner hpath hqid hfile
          | error e world'' =>
            rw [bind_run_error hfile] at h
            cases h

def rootSource (config : Config) (session : Session) (n : Nat) (fs : Nat → Fs)
    (records : List Stat) (hrecords : ∀ t, rootRecords config session (fs t) = some records) :
    Source ByteString fs records where
  Rec name record := ∀ t, rootEntry config session (fs t) name = some record
  lock world := world.roots n
  store := setRoot n
  record := rootRecord config session
  seek := seekRoot config n
  store_run state world h := ⟨_, setRoot_run n state world, h, if_pos rfl⟩
  record_run {name} {record} {world} hrec h := by
    replace hrec := hrec world.clock
    unfold rootEntry at hrec
    by_cases hrpc : name = "rpc"
    · rw [if_pos hrpc] at hrec
      cases hrec
      exact ⟨world, by rw [rootRecord, if_pos hrpc]; rfl, h, rfl⟩
    · rw [if_neg hrpc] at hrec
      obtain ⟨path, hpath, hmeta⟩ := Option.bind_eq_some_iff.mp hrec
      obtain ⟨meta_, hsome, rfl⟩ := Option.map_eq_some_iff.mp hmeta
      have hcall : (world.fs world.clock).metadata path = .ok meta_ := by
        rw [h]
        exact toOption_eq_some hsome
      let world' : World := { world with accessed := path :: world.accessed, clock := world.clock + 1 }
      have hrun : (rootRecord config session name).run world = .ok (stat session name meta_) world' := by
        rw [rootRecord, if_neg hrpc, hpath]
        exact bind_run_ok (access_run hcall) _
      exact ⟨world', hrun, h, rfl⟩
  seek_start {world} h hnew := by
    obtain ⟨world', hseek, hfs, -, hlock⟩ := seekRoot_zero config n world
    exact ⟨_, world', hseek, hfs.trans h, hlock, forall₂_forall fun t => mapM_forall₂ (hrecords t)⟩
  seek_next {offset} {world} hoffset hlast := by
    rw [seekRoot, bind_run_ok (EStateM.run_get _), if_neg hoffset, if_neg (not_not.mpr hlast.symm)]
    rfl
  seek_refused {offset} {world} hoffset hlast := by
    refine ⟨"Invalid offset for root directory read", world, ?_, by decide⟩
    rw [seekRoot, bind_run_ok (EStateM.run_get _), if_neg hoffset, if_pos (Ne.symm hlast)]
    rfl

end NineWire.Res

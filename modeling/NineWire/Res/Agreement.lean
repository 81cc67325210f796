import Mathlib.Data.List.Nodup
import NineWire.Res.Dotdot
import NineWire.Res.Rewind
import NineWire.Wire.Inverse

/-! Listing and walking agree: the records of a directory name what its walks
find, and show it as the stats do, opened or not. -/
namespace NineWire.Res
open NineWire.Wire NineWire.Os NineWire.Server NineWire.Stateful NineWire.Transition

/-- What the operating system promises of a file system at one moment. -/
structure Fs.Lawful (fs : Fs) : Prop where
  follows : Fs.Follows fs
  /-- A separator at the end of a path is for directories only. -/
  trailing : ∀ path meta_,
    fs.metadata (path.push []) = .ok meta_ ↔ fs.metadata path = .ok meta_ ∧ meta_.isDir = true
  /-- A directory has every entry once, and leaves out its parent. -/
  names : ∀ path dents, fs.readDir path = .ok dents →
    (dents.map DirEntry.fileName).Nodup ∧ dotdot ∉ dents.map DirEntry.fileName
  entry : ∀ path dents dent, fs.readDir path = .ok dents → dent ∈ dents →
    fs.symlinkMetadata (path.push dent.fileName) = .ok dent.metadata
  opened : ∀ path file, fs.openFile path = .ok file → fs.fileMetadata file = fs.metadata path

/-- Walking the name of a record finds what the record shows: the same qid, and
the same stat before and after it is opened. -/
def PathResource.Finds (fs : Fs) (self : PathResource) (record : Stat) : Prop :=
  ∀ world, world.Still fs → ∃ wqid q world',
    (self.walk [record.name]).run world = .ok (wqid, some q) world' ∧ q.qid = record.qid ∧
      (∃ world'', q.stat.run world' = .ok record world'') ∧
      ∀ opened world'', (q.open_ 0).run world' = .ok opened world'' →
        ∃ world''', opened.stat.run world'' = .ok record world'''

def PathResource.Covers (fs : Fs) (self : PathResource) (names : List ByteString) : Prop :=
  match self.inner with
  | .root => "rpc" ∈ names ∧ ∀ share ∈ self.handler.shares.keys, share ∈ names
  | .rpc | .onShare _ _ => ∀ path dents dent name, self.realPath = some path →
      fs.readDir path = .ok dents → dent ∈ dents → dent.metadata.isSymlink = false →
      String.fromUTF8? ⟨dent.fileName.toArray⟩ = some name → name ∈ names

structure PathResource.Agrees (fs : Fs) (p : PathResource) (records : List Stat) : Prop where
  nodup : (records.map Stat.name).Nodup
  covers : p.Covers fs (records.map Stat.name)
  finds : ∀ record ∈ records, p.Finds fs record

def Config.SharesDirs (config : Config) (fs : Fs) : Prop :=
  ∀ share path, config.shares.get share = some path →
    ∃ meta_, fs.metadata path = .ok meta_ ∧ meta_.isDir = true

section Stats
variable {config : Config} {fs : Fs} {self p q : PathResource} {opened : OpenResource}
  {world world' : World} {record : Stat} {path : Path} {meta_ : Metadata}

theorem refreshed_toOption {call : Path → Except String Metadata} (h : self.realPath = some path) :
    (self.refreshed call).toOption =
      (call path).toOption.map fun meta_ => { self with qid := Res.qid meta_ } := by
  rw [PathResource.refreshed, h]
  simp only
  cases call path <;> rfl

theorem withMutex_later (world : World) : world.Later world.withMutex := ⟨rfl, Nat.le_refl _⟩

theorem stat_settles {share : ByteString} {rem : List ByteString}
    (hinner : q.inner = .onShare share rem) (hpath : q.realPath = some path)
    (hmeta : fs.metadata path = .ok meta_) :
    Settles fs q.stat (.ok (stat q.session q.name meta_)) := by
  unfold PathResource.stat
  simp only [hinner]
  refine (realPathUnwrap_settles hpath).bind ?_
  exact (access_settles hmeta).bind (Settles.pure fs _)

theorem openStat_settles_dir {n : Nat} (hinner : opened.inner = .dir path n)
    (hmeta : fs.metadata path = .ok meta_) :
    Settles fs opened.stat (.ok (stat opened.session opened.name meta_)) := by
  unfold OpenResource.stat
  simp only [hinner]
  exact (access_settles hmeta).bind (Settles.pure fs _)

theorem openStat_settles_file {file : Nat} (hinner : opened.inner = .file file)
    (hmeta : fs.fileMetadata file = .ok meta_) :
    Settles fs opened.stat (.ok (stat opened.session opened.name meta_)) := by
  unfold OpenResource.stat
  simp only [hinner]
  exact (syscall_settles hmeta).bind (Settles.pure fs _)

theorem openStat_run {share : ByteString} {rem : List ByteString} (hlaws : Fs.Lawful fs)
    (hinner : q.inner = .onShare share rem) (hpath : q.realPath = some path)
    (hmeta : fs.metadata path = .ok meta_) (hstill : world.Still fs)
    (hopen : (q.open_ 0).run world = .ok opened world') :
    ∃ world'', opened.stat.run world' = .ok (stat q.session q.name meta_) world'' := by
  cases open_cases hopen with
  | root hroot => cases hinner.symm.trans hroot
  | rpc hrpc => cases hinner.symm.trans hrpc
  | @dir share' rem' path' hinner' hpath' hqid =>
    obtain rfl := Option.some.inj (hpath.symm.trans hpath')
    let opened : OpenResource :=
      ⟨q.handler, q.session, q.qid, q.name, .dir path world.opened⟩
    have hopened : opened.inner = .dir path world.opened := rfl
    obtain ⟨world'', -, hrun⟩ := openStat_settles_dir hopened hmeta world.withMutex
      (hstill.later (withMutex_later world))
    exact ⟨world'', hrun⟩
  | @file share' rem' path' file world'' hinner' hpath' hqid hfile =>
    obtain rfl := Option.some.inj (hpath.symm.trans hpath')
    obtain ⟨hfd, hlater⟩ := access_of_run hstill hfile
    have hfstat : fs.fileMetadata file = .ok meta_ := (hlaws.opened path file hfd).trans hmeta
    let opened : OpenResource := ⟨q.handler, q.session, q.qid, q.name, .file file⟩
    have hopened : opened.inner = .file file := rfl
    obtain ⟨world₂, -, hrun⟩ := openStat_settles_file hopened hfstat world' (hstill.later hlater)
    exact ⟨world₂, hrun⟩

/-- A name that leads to something on a share is found with its stat. -/
theorem finds_onShare {share : ByteString} {rem : List ByteString} (hlaws : Fs.Lawful fs)
    (hp : p.Mounted config) (hnext : p.next fs record.name = some q)
    (hinner : q.inner = .onShare share rem) (hpath : q.realPath = some path)
    (hmeta : fs.metadata path = .ok meta_) (hqid : q.qid = Res.qid meta_)
    (hrecord : record = stat q.session q.name meta_) : p.Finds fs record := by
  intro world hstill
  have hall : p.walksTo fs [record.name] = some q := walksTo_cons hnext []
  obtain ⟨wqid, world', hwalk, hstill'⟩ := walk_run hp hall hstill
  obtain ⟨world'', -, hstat⟩ := stat_settles hinner hpath hmeta world' hstill'
  refine ⟨wqid, q, world', hwalk, ?_, ⟨world'', ?_⟩, fun opened world₁ hopen => ?_⟩
  · rw [hqid, hrecord]
    rfl
  · rw [hrecord]
    exact hstat
  · rw [hrecord]
    exact openStat_run hlaws hinner hpath hmeta hstill' hopen

/-- The control file of the root is found with its stat. -/
theorem finds_rpc (hp : p.Mounted config) (hroot : p.inner = .root) :
    p.Finds fs (rpcStat p.session) := by
  intro world hstill
  let q : PathResource := { p with inner := .rpc, qid := rpcQid }
  have hnext : p.next fs "rpc" = some q := by
    rw [next_eq, PathResource.step, hroot]
    rfl
  have hall : p.walksTo fs ["rpc"] = some q := walksTo_cons hnext []
  obtain ⟨wqid, world', hwalk, hstill'⟩ := walk_run hp hall hstill
  refine ⟨wqid, q, world', hwalk, rfl, ⟨world', rfl⟩, fun opened world'' hopen => ?_⟩
  cases open_cases hopen with
  | rpc hinner => exact ⟨world', rfl⟩
  | root hinner => cases hinner
  | dir hinner => cases hinner
  | file hinner => cases hinner

end Stats

section Root
variable {config : Config} {fs : Fs} {p : PathResource} {session : Session} {records : List Stat}
  {record : Stat} {name : ByteString} {path : Path}

theorem rootEntry_name (h : rootEntry config session fs name = some record) :
    record.name = name := by
  unfold rootEntry at h
  split at h
  · rename_i hrpc
    cases h
    exact hrpc.symm
  · obtain ⟨path, -, hmeta⟩ := Option.bind_eq_some_iff.mp h
    obtain ⟨meta_, -, rfl⟩ := Option.map_eq_some_iff.mp hmeta
    rfl

theorem rootRecords_names (h : rootRecords config session fs = some records) :
    records.map Stat.name = "rpc" :: config.shares.keys := by
  have hnames : List.Forall₂ (· = ·) ("rpc" :: config.shares.keys) (records.map Stat.name) :=
    List.forall₂_map_right_iff.mpr ((mapM_forall₂ h).imp fun _ _ hentry => (rootEntry_name hentry).symm)
  rw [List.forall₂_eq_eq_eq] at hnames
  exact hnames.symm

theorem rootRecords_entry (h : rootRecords config session fs = some records)
    (hmem : record ∈ records) : rootEntry config session fs record.name = some record := by
  let Entry : Stat → Prop := fun record => rootEntry config session fs record.name = some record
  have hentries : List.Forall₂ (fun record name => Entry record ∧ record.name = name) records
      ("rpc" :: config.shares.keys) := by
    refine ((mapM_forall₂ h).imp fun name record hentry => ?_).flip
    have hname := rootEntry_name hentry
    refine ⟨?_, hname⟩
    show rootEntry config session fs record.name = some record
    rw [hname]
    exact hentry
  exact ((List.forall₂_and_left _ _).mp hentries).1 record hmem

/-- A walk to a share asks for its path with a separator at the end. -/
theorem next_share (hroot : p.inner = .root) (hshare : p.handler.shares.get name = some path)
    (hup : name ≠ "..") (hrpc : name ≠ "rpc") : p.next fs name =
      (fs.metadata (path.push [])).toOption.map fun meta_ =>
        { p with inner := .onShare name [], qid := Res.qid meta_ } := by
  let there : PathResource := { p with inner := .onShare name [] }
  have hinner : there.inner = .onShare name [] := rfl
  have hpath : there.realPath = some (path.push []) := realPath_onShare hinner hshare
  rw [next_eq, PathResource.step, hroot]
  simp only [PathInner.follow, hup, hrpc, hshare, if_false, Option.isSome_some, if_true, or_true]
  exact refreshed_toOption hpath

theorem share_of_get (h : p.handler.shares.get name = some path)
    (hrpc : "rpc" ∉ p.handler.shares.keys) (hup : ".." ∉ p.handler.shares.keys) :
    name ≠ ".." ∧ name ≠ "rpc" ∧ name ∈ p.handler.shares.keys := by
  have hmem : name ∈ p.handler.shares.keys :=
    List.mem_map_of_mem (f := Prod.fst) (ShareTable.mem_of_get h)
  refine ⟨?_, ?_, hmem⟩
  · intro heq
    subst heq
    exact hup hmem
  · intro heq
    subst heq
    exact hrpc hmem

theorem root_agrees (hlaws : Fs.Lawful fs) (hp : p.Mounted config) (hroot : p.inner = .root)
    (hrpc : "rpc" ∉ config.shares.keys) (hup : ".." ∉ config.shares.keys)
    (hdirs : config.SharesDirs fs) (hrecords : p.records fs = some records) :
    p.Agrees fs records := by
  obtain ⟨rfl, -⟩ := id hp
  have hlist : rootRecords p.handler p.session fs = some records := by
    simpa only [PathResource.records, hroot] using hrecords
  have hnames := rootRecords_names hlist
  refine ⟨?_, ?_, fun record hmem => ?_⟩
  · rw [hnames, List.nodup_cons]
    exact ⟨hrpc, p.handler.shares.nodup⟩
  · simp only [PathResource.Covers, hroot, hnames]
    exact ⟨List.mem_cons_self, fun share hshare => List.mem_cons_of_mem _ hshare⟩
  · have hentry := rootRecords_entry hlist hmem
    unfold rootEntry at hentry
    split at hentry
    · cases hentry
      exact finds_rpc hp hroot
    · obtain ⟨path, hshare, hmeta⟩ := Option.bind_eq_some_iff.mp hentry
      obtain ⟨meta_, hsome, hrecord⟩ := Option.map_eq_some_iff.mp hmeta
      obtain ⟨hne, hne', -⟩ := share_of_get hshare hrpc hup
      obtain ⟨meta', hmeta', hdir⟩ := hdirs _ path hshare
      obtain rfl := Except.ok.inj ((toOption_eq_some hsome).symm.trans hmeta')
      have htrailing := (hlaws.trailing path meta_).mpr ⟨hmeta', hdir⟩
      have hnext : p.next fs _ = _ := next_share hroot hshare hne hne'
      rw [htrailing] at hnext
      exact finds_onShare hlaws hp hnext rfl (realPath_onShare rfl hshare) htrailing rfl hrecord.symm

theorem not_agrees_of_share (hlaws : Fs.Lawful fs) (hp : p.Mounted config) (hroot : p.inner = .root)
    (hrpc : "rpc" ∉ config.shares.keys) (hup : ".." ∉ config.shares.keys)
    (hshare : config.shares.get name = some path)
    (hfile : ∀ meta_, fs.metadata path = .ok meta_ → meta_.isDir = false) :
    ¬p.Agrees fs records := by
  obtain ⟨rfl, -⟩ := id hp
  intro hagrees
  obtain ⟨hne, hne', hkey⟩ := share_of_get hshare hrpc hup
  have hcovers := hagrees.covers
  simp only [PathResource.Covers, hroot] at hcovers
  obtain ⟨record, hmem, rfl⟩ := List.mem_map.mp (hcovers.2 name hkey)
  have hstill : World.Still fs { fs := fun _ => fs } := fun _ _ => rfl
  obtain ⟨wqid, q, world', hwalk, -⟩ := hagrees.finds record hmem _ hstill
  obtain ⟨hall, -⟩ := walksTo_of_run hp hstill hwalk
  obtain ⟨q', hnext, -⟩ := Option.bind_eq_some_iff.mp hall
  rw [next_share hroot hshare hne hne'] at hnext
  obtain ⟨meta_, hmeta, -⟩ := Option.map_eq_some_iff.mp hnext
  obtain ⟨hplain, hdir⟩ := (hlaws.trailing path meta_).mp (toOption_eq_some hmeta)
  rw [hfile meta_ hplain] at hdir
  cases hdir

end Root

section Directory
variable {config : Config} {fs : Fs} {p : PathResource} {session : Session} {records : List Stat}
  {name : ByteString} {path : Path} {dents : List DirEntry} {meta_ : Metadata}
  {share : ByteString} {rem : List ByteString}

/-- What is listed is no link and has a name that is UTF-8. -/
theorem mem_listed : (name, meta_) ∈ listed dents ↔ ∃ dent ∈ dents,
    dent.metadata.isSymlink = false ∧ String.fromUTF8? ⟨dent.fileName.toArray⟩ = some name ∧
      dent.metadata = meta_ := by
  unfold listed
  rw [List.mem_filterMap]
  refine exists_congr fun dent => and_congr_right fun _ => ?_
  cases dent.metadata.isSymlink <;>
    simp [Option.map_eq_some_iff]

theorem listed_names (dents : List DirEntry) :
    ((listed dents).map fun entry => asBytes entry.1).Sublist (dents.map DirEntry.fileName) := by
  induction dents with
  | nil => exact List.Sublist.refl []
  | cons dent dents ih =>
    unfold listed at ih ⊢
    rw [List.filterMap_cons, List.map_cons]
    cases hlink : dent.metadata.isSymlink with
    | true => exact ih.cons _
    | false =>
      cases hname : String.fromUTF8? ⟨dent.fileName.toArray⟩ with
      | none => exact ih.cons _
      | some name =>
        simp only [Bool.false_eq_true, if_false, Option.map_some, List.map_cons]
        rw [asBytes_fromUTF8 hname]
        exact ih.cons_cons _

theorem next_entry (hinner : p.inner = .onShare share rem) (hpath : p.realPath = some path)
    (hup : name ≠ "..") (hlstat : fs.symlinkMetadata (path.push (asBytes name)) = .ok meta_)
    (hlink : meta_.isSymlink = false) :
    ({ p with inner := .onShare share (rem ++ [name]) } : PathResource).realPath =
        some (path.push (asBytes name)) ∧
      p.next fs name =
        some { p with inner := .onShare share (rem ++ [name]), qid := Res.qid meta_ } := by
  let there : PathResource := { p with inner := .onShare share (rem ++ [name]) }
  have hthere : there.realPath = some (path.push (asBytes name)) := by
    unfold PathResource.realPath at hpath ⊢
    rw [hinner] at hpath
    obtain ⟨root, hroot, rfl⟩ := Option.map_eq_some_iff.mp hpath
    show (p.handler.shares.get share).map _ = _
    rw [hroot, Option.map_some, List.map_append, List.map_singleton, push_collect_append]
  refine ⟨hthere, ?_⟩
  have hunlinked : Fs.unlinked fs (path.push (asBytes name)) = .ok meta_ := by
    rw [Fs.unlinked, hlstat]
    simp only [hlink, Bool.false_eq_true, if_false]
  rw [next_eq, PathResource.step, hinner]
  simp only [PathInner.follow, hup, if_false, false_or, reduceCtorEq]
  rw [refreshed_toOption hthere, hunlinked]
  rfl

/-- A directory on a share agrees with its listing. -/
theorem dir_agrees (hlaws : Fs.Lawful fs) (hp : p.Mounted config)
    (hinner : p.inner = .onShare share rem) (hrecords : p.records fs = some records) :
    p.Agrees fs records := by
  simp only [PathResource.records, hinner] at hrecords
  obtain ⟨path, hpath, hlist⟩ := Option.bind_eq_some_iff.mp hrecords
  obtain ⟨dents, hdents, rfl⟩ := Option.map_eq_some_iff.mp hlist
  replace hdents := toOption_eq_some hdents
  obtain ⟨hnodup, hdotdot⟩ := hlaws.names path dents hdents
  have hnames : ((listed dents).map fun entry => stat p.session entry.1 entry.2).map Stat.name =
      (listed dents).map Prod.fst := by
    rw [List.map_map]
    rfl
  refine ⟨?_, ?_, fun record hmem => ?_⟩
  · have hbytes := (listed_names dents).nodup hnodup
    rw [hnames]
    refine List.Nodup.of_map asBytes ?_
    rwa [List.map_map]
  · simp only [PathResource.Covers, hinner]
    intro path' dents' dent name hpath' hdents' hdent hlink hname
    obtain rfl := Option.some.inj (hpath.symm.trans hpath')
    obtain rfl := Except.ok.inj (hdents.symm.trans hdents')
    rw [hnames]
    exact List.mem_map.mpr ⟨(name, dent.metadata), mem_listed.mpr ⟨dent, hdent, hlink, hname, rfl⟩, rfl⟩
  · obtain ⟨⟨name, meta_⟩, hentry, rfl⟩ := List.mem_map.mp hmem
    obtain ⟨dent, hdent, hlink, hname, rfl⟩ := mem_listed.mp hentry
    have hfile : asBytes name = dent.fileName := asBytes_fromUTF8 hname
    have hup : name ≠ ".." := by
      intro heq
      subst heq
      have hdots : asBytes ".." = dotdot := by decide
      rw [← hdots, hfile] at hdotdot
      exact hdotdot (List.mem_map_of_mem hdent)
    have hlstat := hlaws.entry path dents dent hdents hdent
    rw [← hfile] at hlstat
    obtain ⟨hthere, hnext⟩ := next_entry hinner hpath hup hlstat hlink
    have hstat := hlaws.follows _ _ hlstat hlink
    refine finds_onShare hlaws hp hnext rfl hthere hstat rfl ?_
    simp [PathResource.name]

end Directory

section Whole
variable {fs : Fs} {records : List Stat} {count : UInt32} {data : Bytes} {world world' : World}

/-- A loop that has room for every record, and returns, has put every record. -/
theorem fill_shows {α : Type} {record : α → Call World Stat} {remove : List α → Call World Unit}
    {J : World → Prop} {Rec : α → Stat → Prop} {count : Nat}
    (hrecord : ∀ entry stat world, Rec entry stat → J world →
      ∃ world', (record entry).run world = .ok stat world' ∧ J world')
    (hremove : ∀ rem world, J world → ∃ world', (remove rem).run world = .ok () world' ∧ J world')
    {entries : List α} {stats : List Stat} (h : List.Forall₂ Rec entries stats) {buf : Bytes}
    (hcount : buf.length + lenAll stats ≤ count) {world : World} (hJ : J world)
    (hrun : (fill record remove count entries buf).run world = .ok data world') :
    ∀ stat ∈ stats, stat.len - 2 < 2^16 := by
  induction h generalizing buf world with
  | nil => exact nofun
  | @cons entry stat entries stats hrec hrest ih =>
    obtain ⟨world₁, hone, hJ₁⟩ := hrecord entry stat world hrec hJ
    rw [fill, bind_run_ok hone] at hrun
    have hsum : lenAll (stat :: stats) = stat.len + lenAll stats := rfl
    by_cases hstat : stat.len - 2 < 2^16
    · have hlen := encode_length hstat
      rw [putStat_run hstat] at hrun
      have hfits : ¬count < (buf ++ stat.encode).length := by
        rw [List.length_append, hlen]
        omega
      simp only [if_neg hfits] at hrun
      obtain ⟨world₂, htwo, hJ₂⟩ := hremove entries world₁ hJ₁
      rw [bind_run_ok htwo] at hrun
      have hcount' : (buf ++ stat.encode).length + lenAll stats ≤ count := by
        rw [List.length_append, hlen]
        omega
      have hothers := ih hcount' hJ₂ hrun
      intro stat' hmem
      obtain rfl | hmem := List.mem_cons.mp hmem
      · exact hstat
      · exact hothers stat' hmem
    · cases hput : (putStat stat).run buf with
      | ok out => exact (hstat (stat_shows stat _ _ _ hput)).elim
      | error e =>
        rw [hput] at hrun
        cases hrun

theorem Source.read_whole {α : Type} {fs : Nat → Fs} (src : Source α fs records)
    (h : src.At [] 0 world) (hcount : lenAll records ≤ count.toNat)
    (hread : (src.read 0 count).run world = .ok data world') :
    data = encodeAll records ∧ ∀ stat ∈ records, stat.len - 2 < 2^16 := by
  have hfit : ∀ stat ∈ records, stat.len - 2 < 2^16 := by
    obtain ⟨entries, world₁, hseek, hfs, hlock, hrecords⟩ := src.seek_start h.fs h.last
    rw [Source.read, bind_run_ok hseek, take, bind_run_ok (EStateM.run_get _), hlock] at hread
    obtain ⟨buf, world₂, hfill, -⟩ := bind_ok hread
    refine fill_shows (J := fun world => world.fs = fs) ?_ ?_ hrecords ?_ hfs hfill
    · intro entry stat world hrec hworld
      obtain ⟨world', hrun, hfs', -⟩ := src.record_run hrec hworld
      exact ⟨world', hrun, hfs'⟩
    · intro rem world hworld
      obtain ⟨world', hrun, hfs', -⟩ := src.store_run { ListState.mk entries 0 with rem } hworld
      exact ⟨world', hrun, hfs'⟩
    · simpa using hcount
  obtain ⟨taken, rest, world₁, hcuts, hrun, -⟩ := Source.read_start count hfit h
  have hall : taken = records := by
    cases rest with
    | nil => rw [hcuts.append, List.append_nil]
    | cons next rest =>
      have hfull := hcuts.full next rfl
      have hsum : lenAll records = lenAll taken + (next.len + lenAll rest) := by
        rw [hcuts.append, lenAll, List.map_append, List.sum_append]
        rfl
      omega
  cases hread.symm.trans hrun
  exact ⟨congrArg encodeAll hall, hfit⟩

end Whole

theorem open_read_whole {p : PathResource} {opened : OpenResource} {fs : Fs} {records : List Stat}
    {mode : UInt8} {count : UInt32} {data : Bytes} {world world' world'' : World}
    (hdir : p.qid.type_ &&& qtdir = qtdir) (hfs : world.fs = fun _ => fs)
    (hrecords : p.records fs = some records) (hcount : lenAll records ≤ count.toNat)
    (hopen : (p.open_ mode).run world = .ok opened world')
    (hread : (opened.read 0 count).run world' = .ok data world'') :
    data = encodeAll records ∧ ∀ stat ∈ records, stat.len - 2 < 2^16 := by
  unfold PathResource.records at hrecords
  cases open_cases hopen with
  | root hinner =>
    simp only [hinner] at hrecords
    let src := rootSource p.handler p.session world.opened (fun _ => fs) records fun _ => hrecords
    have hnew : src.At [] 0 world.withMutex := Source.at_new hfs (if_pos rfl)
    exact src.read_whole hnew hcount hread
  | rpc hinner =>
    simp only [hinner] at hrecords
    cases hrecords
  | @dir share rem path hinner hpath hqid =>
    simp only [hinner, hpath, Option.bind_some] at hrecords
    let src := dirSource p.session path world.opened (fun _ => fs) records fun _ => hrecords
    have hnew : src.At [] 0 world.withMutex := Source.at_new hfs (if_pos rfl)
    exact src.read_whole hnew hcount hread
  | file hinner hpath hqid hfile => exact (hqid hdir).elim

/-- Listing and walking agree. In an unchanging file system, a directory that
walks reach, opened and read as a whole, returns its records, and what they name
and show is what walks find, opened or not: of the root exactly when every share
is a directory, and of a directory on a share always. -/
theorem listing_agrees_iff (config : Config) (fs : Fs) (hlaws : Fs.Lawful fs)
    (hrpc : "rpc" ∉ config.shares.keys) (hup : ".." ∉ config.shares.keys) (p : PathResource)
    (hp : Found config fs p) (hdir : p.qid.type_ &&& qtdir = qtdir) (records : List Stat)
    (hrecords : p.records fs = some records) (count : UInt32)
    (hcount : lenAll records ≤ count.toNat) (opened : OpenResource) (data : Bytes)
    (world world' world'' : World) (hfs : world.fs = fun _ => fs)
    (hopen : (p.open_ 0).run world = .ok opened world')
    (hread : (opened.read 0 count).run world' = .ok data world'') :
    data = encodeAll records ∧ (∀ stat ∈ records, stat.len - 2 < 2^16) ∧
      (p.Agrees fs records ↔ p.inner = .root → config.SharesDirs fs) := by
  obtain ⟨hdata, hfit⟩ := open_read_whole hdir hfs hrecords hcount hopen hread
  refine ⟨hdata, hfit, ?_, ?_⟩
  · intro hagrees hroot share path hshare
    by_contra hfile
    refine not_agrees_of_share hlaws hp.mounted hroot hrpc hup hshare (fun meta_ hmeta => ?_) hagrees
    by_contra hdir
    exact hfile ⟨meta_, hmeta, by simpa using hdir⟩
  · intro hdirs
    cases hinner : p.inner with
    | root => exact root_agrees hlaws hp.mounted hinner hrpc hup (hdirs hinner) hrecords
    | rpc =>
      simp only [PathResource.records, hinner] at hrecords
      cases hrecords
    | onShare share rem => exact dir_agrees hlaws hp.mounted hinner hrecords

theorem openedRoot_reads {fs : Fs} {records : List Stat}
    (hrecords : rootRecords mainConfig ⟨1, "glenda"⟩ fs = some records)
    (hfit : ∀ stat ∈ records, stat.len - 2 < 2^16) : ∃ data world',
      (openedRoot.read 0 1000).run (World.withMutex { fs := fun _ => fs }) = .ok data world' := by
  let src := rootSource mainConfig ⟨1, "glenda"⟩ 0 (fun _ => fs) records fun _ => hrecords
  have hnew : src.At [] 0 (World.withMutex { fs := fun _ => fs }) := Source.at_new rfl rfl
  obtain ⟨taken, rest, world', -, hrun, -⟩ := Source.read_start 1000 hfit hnew
  exact ⟨_, world', hrun⟩

theorem flat_lawful : Fs.Lawful (Fs.flat []) where
  follows _ _ h _ := h
  trailing path meta_ := by
    constructor
    · intro h
      cases h
      exact ⟨rfl, rfl⟩
    · exact And.left
  names path dents h := by
    cases h
    exact ⟨List.nodup_nil, List.not_mem_nil⟩
  entry path dents dent h hmem := by
    cases h
    cases hmem
  opened path file h := by cases h

theorem listing_agrees_iff_root : ∃ records,
    (PathResource.root mainConfig ⟨1, "glenda"⟩).records (Fs.flat []) = some records ∧
      records.map Stat.name = ["rpc", "forfun", "ff2"] ∧
      (PathResource.root mainConfig ⟨1, "glenda"⟩).Agrees (Fs.flat []) records := by
  let p := PathResource.root mainConfig ⟨1, "glenda"⟩
  let records : List Stat := ["rpc", "forfun", "ff2"].map fun name =>
    if name = "rpc" then rpcStat ⟨1, "glenda"⟩ else stat ⟨1, "glenda"⟩ name ⟨.dir, 4096, 2⟩
  let world : World := { fs := fun _ => Fs.flat [] }
  have hdirs : mainConfig.SharesDirs (Fs.flat []) := fun _ _ _ => ⟨_, rfl, rfl⟩
  have hrecords : rootRecords mainConfig ⟨1, "glenda"⟩ (Fs.flat []) = some records := rfl
  obtain ⟨data, world', hread⟩ := openedRoot_reads hrecords (by decide)
  obtain ⟨-, -, hagrees⟩ := listing_agrees_iff mainConfig (Fs.flat []) flat_lawful (by decide)
    (by decide) p (.root _) (by decide) records hrecords 1000 (by decide) openedRoot data world
    world.withMutex world' rfl rfl hread
  exact ⟨records, rfl, rfl, hagrees.mpr fun _ => hdirs⟩

def Fs.lone (file : Path) : Fs where
  metadata path := if path = file then .ok ⟨.file, 0, 1⟩ else .error "No such file or directory"
  symlinkMetadata path := if path = file then .ok ⟨.file, 0, 1⟩ else .error "No such file or directory"
  readDir _ := .error "Not a directory"
  openFile path := if path = file then .ok 0 else .error "No such file or directory"
  fileMetadata _ := .ok ⟨.file, 0, 1⟩
  readAt _ _ _ := .ok []

theorem lone_lawful {file : Path} (h : file.NeedSep) : Fs.Lawful (Fs.lone file) where
  follows _ _ h _ := h
  trailing path meta_ := by
    constructor
    · intro hmeta
      simp only [Fs.lone] at hmeta
      split at hmeta
      · rename_i heq
        rw [push_relative not_isAbsolute_nil, List.append_nil] at heq
        by_cases hsep : path.NeedSep
        · rw [if_pos hsep] at heq
          rw [← heq, needSep_append (by simp)] at h
          exact absurd h (by decide)
        · rw [if_neg hsep, List.append_nil] at heq
          exact (hsep (heq ▸ h)).elim
      · cases hmeta
    · intro hmeta
      obtain ⟨hmeta, hdir⟩ := hmeta
      simp only [Fs.lone] at hmeta
      split at hmeta <;> cases hmeta
      cases hdir
  names path dents h := by cases h
  entry path dents dent h hmem := by cases h
  opened path file' h := by
    simp only [Fs.lone] at h ⊢
    split at h
    · rename_i heq
      rw [if_pos heq]
    · cases h

theorem listing_agrees_counterexample :
    ¬∀ (config : Config) (fs : Fs), Fs.Lawful fs → "rpc" ∉ config.shares.keys →
      ".." ∉ config.shares.keys → ∀ p : PathResource, Found config fs p →
      p.qid.type_ &&& qtdir = qtdir → ∀ records, p.records fs = some records →
      ∀ count : UInt32, lenAll records ≤ count.toNat →
      ∀ (opened : OpenResource) (data : Bytes) (world world' world'' : World),
      world.fs = (fun _ => fs) → (p.open_ 0).run world = .ok opened world' →
      (opened.read 0 count).run world' = .ok data world'' →
      data = encodeAll records ∧ p.Agrees fs records := by
  intro h
  let fs := Fs.lone (asBytes "forfun")
  have hlaws : Fs.Lawful fs := lone_lawful (by decide)
  let p := PathResource.root mainConfig ⟨1, "glenda"⟩
  have hp : Found mainConfig fs p := .root _
  let records : List Stat := ["rpc", "forfun", "ff2"].map fun name =>
    if name = "rpc" then rpcStat ⟨1, "glenda"⟩ else stat ⟨1, "glenda"⟩ name ⟨.file, 0, 1⟩
  let world : World := { fs := fun _ => fs }
  have hrecords : rootRecords mainConfig ⟨1, "glenda"⟩ fs = some records := rfl
  obtain ⟨data, world', hread⟩ := openedRoot_reads hrecords (by decide)
  obtain ⟨-, hagrees⟩ := h mainConfig fs hlaws (by decide) (by decide) p hp (by decide) records
    hrecords 1000 (by decide) openedRoot data world world.withMutex world' rfl rfl hread
  have hshare : mainConfig.shares.get "forfun" = some (asBytes "forfun") := by decide
  refine not_agrees_of_share hlaws hp.mounted rfl (by decide) (by decide) hshare ?_ hagrees
  intro meta_ hmeta
  cases hmeta
  rfl

end NineWire.Res

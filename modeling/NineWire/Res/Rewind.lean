import NineWire.Res.Listing

/-! Reading a directory over and over: any number of passes, each from offset 0
on, and what becomes of the offset the server expects when a pass starts over. -/
namespace NineWire.Res
open NineWire.Wire NineWire.Server NineWire.Os NineWire.Stateful

structure Restart (α : Type) (fs : Nat → Fs) (records : List Stat) extends
    Source α fs records where
  reset : UInt64 → UInt64
  reset_zero : reset 0 = 0
  seek_restart {world : World} (h : world.fs = fs) :
    ∃ entries world', (seek 0).run world = .ok () world' ∧ world'.fs = fs ∧
      lock world' = ⟨entries, reset (lock world).lastOffset⟩ ∧ List.Forall₂ Rec entries records

inductive DirRead where
  | rewind (count : UInt32)
  | next (count : UInt32)
  deriving DecidableEq

def DirRead.count : DirRead → UInt32
  | .rewind count => count
  | .next count => count

def DirRead.offset (ended : UInt64) : DirRead → UInt64
  | .rewind _ => 0
  | .next _ => ended

def DirRead.continues : DirRead → Bool
  | .rewind _ => false
  | .next _ => true

def OnePass (reads : List DirRead) : Prop :=
  ∀ r ∈ reads.dropWhile DirRead.continues, r.continues = false

instance (reads : List DirRead) : Decidable (OnePass reads) :=
  inferInstanceAs (Decidable (∀ r ∈ _, _))

/-- Every read succeeds and returns whole records that fit in its count, and
what was returned since the last read at 0 is the front of the listing. `ended`
is where the last read ended, `got` what was returned since that read at 0. -/
def Streams (read : UInt64 → UInt32 → Call World Bytes) (records : List Stat) :
    World → UInt64 → List Stat → List DirRead → Prop
  | _, _, _, [] => True
  | world, ended, got, r :: reads =>
    ∃ taken world', (read (r.offset ended) r.count).run world = .ok (encodeAll taken) world' ∧
      (encodeAll taken).length ≤ r.count.toNat ∧
      (if r.offset ended = 0 then [] else got) ++ taken <+: records ∧
      Streams read records world' (r.offset ended + UInt64.ofNat (encodeAll taken).length)
        ((if r.offset ended = 0 then [] else got) ++ taken) reads

section Restart
variable {α : Type} {fs : Nat → Fs} {records rem got : List Stat} {src : Restart α fs records}
  {world : World} {last ended : UInt64} {reads : List DirRead}

theorem Restart.read_restart (count : UInt32) (hfit : ∀ stat ∈ records, stat.len - 2 < 2^16)
    (h : src.At rem last world) :
    ∃ taken rest world', Cuts count.toNat records taken rest ∧
      (src.read 0 count).run world = .ok (encodeAll taken) world' ∧
      src.At rest (src.reset last + UInt64.ofNat (encodeAll taken).length) world' := by
  obtain ⟨entries, world', hseek, hfs, hlock, hrecords⟩ := src.seek_restart h.fs
  rw [h.last] at hlock
  have hstart : src.At records (src.reset last) world' := ⟨hfs, by rw [hlock], by rwa [hlock]⟩
  obtain ⟨taken, rest, world'', hcuts, htake, hat⟩ := Source.take_run count hfit hstart
  have hlen : (encodeAll taken).length = lenAll taken :=
    encodeAll_length fun stat hstat => hfit stat (hcuts.append ▸ List.mem_append_left rest hstat)
  refine ⟨taken, rest, world'', hcuts, ?_, by rwa [hlen]⟩
  rw [Source.read, bind_run_ok hseek, htake]

theorem Restart.read_on (count : UInt32) (hfit : ∀ stat ∈ records, stat.len - 2 < 2^16)
    (hgot : got ++ rem = records) (h : src.At rem last world) (hlast : last ≠ 0) :
    ∃ taken rest world', Cuts count.toNat rem taken rest ∧
      (src.read last count).run world = .ok (encodeAll taken) world' ∧
      src.At rest (last + UInt64.ofNat (encodeAll taken).length) world' := by
  have hrem : ∀ stat ∈ rem, stat.len - 2 < 2^16 := fun stat hstat =>
    hfit stat (hgot ▸ List.mem_append_right got hstat)
  obtain ⟨taken, rest, world', hcuts, hread, hat⟩ := Source.read_next count hrem h hlast
  have hlen : (encodeAll taken).length = lenAll taken :=
    encodeAll_length fun stat hstat => hrem stat (hcuts.append ▸ List.mem_append_left rest hstat)
  exact ⟨taken, rest, world', hcuts, hread, by rwa [hlen]⟩

theorem Cuts.length_le {count : Nat} {stats taken rest : List Stat} (h : Cuts count stats taken rest)
    (hfit : ∀ stat ∈ stats, stat.len - 2 < 2^16) : (encodeAll taken).length ≤ count := by
  rw [encodeAll_length fun stat hstat => hfit stat (h.append ▸ List.mem_append_left rest hstat)]
  exact h.fits

theorem Restart.streams_restart {r : DirRead} (hfit : ∀ stat ∈ records, stat.len - 2 < 2^16)
    (h : src.At rem last world) (hoffset : r.offset ended = 0)
    (hrest : ∀ taken rest world', taken ++ rest = records →
      src.At rest (src.reset last + UInt64.ofNat (encodeAll taken).length) world' →
      Streams src.read records world' (UInt64.ofNat (encodeAll taken).length) taken reads) :
    Streams src.read records world ended got (r :: reads) := by
  obtain ⟨taken, rest, world', hcuts, hread, hat⟩ := Restart.read_restart r.count hfit h
  have hnext := hrest taken rest world' hcuts.append.symm hat
  refine ⟨taken, world', by rw [hoffset, hread], hcuts.length_le hfit, ?_, ?_⟩
  · rw [if_pos hoffset, List.nil_append, hcuts.append]
    exact List.prefix_append taken rest
  · rwa [if_pos hoffset, hoffset, UInt64.zero_add, List.nil_append]

/-- Starting over again and again always succeeds. -/
theorem Restart.streams_rewinds (hfit : ∀ stat ∈ records, stat.len - 2 < 2^16)
    (h : src.At rem last world) (hreads : ∀ r ∈ reads, DirRead.continues r = false) :
    Streams src.read records world ended got reads := by
  induction reads generalizing rem last world ended got with
  | nil => trivial
  | cons r reads ih =>
    have hr := hreads r List.mem_cons_self
    have hoffset : r.offset ended = 0 := by
      cases r with
      | rewind count => rfl
      | next count => cases hr
    refine Restart.streams_restart hfit h hoffset fun taken rest world' _ hat => ?_
    exact ih hat fun r' hr' => hreads r' (List.mem_cons_of_mem r hr')

theorem Restart.streams_synced (hfit : ∀ stat ∈ records, stat.len - 2 < 2^16)
    (h : src.At rem last world) (hgot : got ++ rem = records)
    (hreads : (∀ offset, src.reset offset = 0) ∨ OnePass reads) :
    Streams src.read records world last got reads := by
  induction reads generalizing rem last world got with
  | nil => trivial
  | cons r reads ih =>
    by_cases hoffset : r.offset last = 0
    · refine Restart.streams_restart hfit h hoffset fun taken rest world' hrecords hat => ?_
      obtain hreset | hpass := hreads
      · rw [hreset, UInt64.zero_add] at hat
        exact ih hat hrecords (.inl hreset)
      · cases r with
        | rewind count =>
          exact Restart.streams_rewinds hfit hat fun r' hr' => hpass r' (List.mem_cons_of_mem _ hr')
        | next count =>
          have hlast : last = 0 := hoffset
          rw [hlast, src.reset_zero, UInt64.zero_add] at hat
          exact ih hat hrecords (.inr hpass)
    · cases r with
      | rewind count => exact (hoffset rfl).elim
      | next count =>
        obtain ⟨taken, rest, world', hcuts, hread, hat⟩ := Restart.read_on count hfit hgot h hoffset
        have hrem : ∀ stat ∈ rem, stat.len - 2 < 2^16 := fun stat hstat =>
          hfit stat (hgot ▸ List.mem_append_right got hstat)
        have hrecords : got ++ taken ++ rest = records := by
          rw [List.append_assoc, ← hcuts.append, hgot]
        refine ⟨taken, world', hread, hcuts.length_le hrem, ?_, ?_⟩
        · rw [if_neg hoffset, ← hrecords]
          exact List.prefix_append _ _
        · rw [if_neg hoffset]
          exact ih hat hrecords (hreads.imp_right fun hpass => hpass)

/-- Nothing to list, nothing to get out of step with. -/
theorem Restart.streams_empty (hrecords : records = []) (h : src.At rem 0 world) :
    Streams src.read records world 0 [] reads := by
  subst hrecords
  induction reads generalizing rem world with
  | nil => trivial
  | cons r reads ih =>
    have hoffset : r.offset 0 = 0 := by cases r <;> rfl
    refine Restart.streams_restart nofun h hoffset fun taken rest world' hnil hat => ?_
    obtain ⟨rfl, rfl⟩ := List.append_eq_nil_iff.mp hnil
    rw [src.reset_zero] at hat
    exact ih hat

theorem Cuts.length_pos {count : Nat} {taken rest : List Stat} (h : Cuts count records taken rest)
    (hfit : ∀ stat ∈ records, stat.len - 2 < 2^16) (hne : records ≠ [])
    (hcount : ∀ stat ∈ records, stat.len ≤ count) : 0 < (encodeAll taken).length := by
  rw [encodeAll_length fun stat hstat => hfit stat (h.append ▸ List.mem_append_left rest hstat)]
  have happend := h.append
  cases taken with
  | nil =>
    obtain ⟨stat, stats, rfl⟩ := List.exists_cons_of_ne_nil hne
    obtain rfl : stat :: stats = rest := happend
    have hfull := h.full stat rfl
    have hstat := hcount stat List.mem_cons_self
    simp only [lenAll, List.map_nil, List.sum_nil] at hfull
    omega
  | cons stat taken =>
    have hmin := stat.le_len
    simp only [lenAll, List.map_cons, List.sum_cons]
    omega

theorem toNat_advance {n k : Nat} {count : UInt32} (hk : k ≤ count.toNat)
    (hroom : last.toNat + (n + 1) * 2^32 ≤ 2^64) :
    (last + UInt64.ofNat k).toNat = last.toNat + k ∧
      last.toNat + k + n * 2^32 ≤ 2^64 ∧ (UInt64.ofNat k).toNat = k := by
  have hcount := count.toNat_lt
  have hk' : (UInt64.ofNat k).toNat = k := UInt64.toNat_ofNat_of_lt' (by simp only [UInt64.size]; omega)
  refine ⟨?_, by omega, hk'⟩
  rw [UInt64.toNat_add, hk']
  exact Nat.mod_eq_of_lt (by omega)

theorem Restart.rewind_of_streams (hreset : ∀ offset, src.reset offset = offset)
    (hfit : ∀ stat ∈ records, stat.len - 2 < 2^16) (hne : records ≠ []) {count : UInt32}
    (hcount : ∀ stat ∈ records, stat.len ≤ count.toNat) (h : src.At rem last world) {n : Nat}
    (hroom : last.toNat + (n + 1) * 2^32 ≤ 2^64)
    (hstreams : Streams src.read records world ended got (.rewind count :: reads)) :
    ∃ taken rest seen world' ended', taken ++ rest = records ∧ src.At rest (last + ended') world' ∧
      Streams src.read records world' ended' seen reads ∧ 0 < ended'.toNat ∧
      (last + ended').toNat = last.toNat + ended'.toNat ∧
      last.toNat + ended'.toNat + n * 2^32 ≤ 2^64 := by
  obtain ⟨taken, world', hread, -, -, hrest⟩ := hstreams
  obtain ⟨taken', rest, world'', hcuts, hread', hat⟩ := Restart.read_restart count hfit h
  obtain ⟨hdata, rfl⟩ := EStateM.Result.ok.inj (hread.symm.trans hread')
  have hpos := hcuts.length_pos hfit hne hcount
  obtain ⟨hsum, hroom', hlen⟩ := toNat_advance (hcuts.length_le hfit) hroom
  have hoffset : (DirRead.rewind count).offset ended = 0 := rfl
  rw [hreset] at hat
  rw [hdata, hoffset, UInt64.zero_add] at hrest
  refine ⟨taken', rest, _, world', _, hcuts.append.symm, hat, hrest, ?_, ?_, ?_⟩
  · rwa [hlen]
  · rwa [hlen]
  · rwa [hlen]

theorem Restart.rewinds_of_streams (hreset : ∀ offset, src.reset offset = offset)
    (hfit : ∀ stat ∈ records, stat.len - 2 < 2^16) (hne : records ≠ [])
    (hcount : ∀ r ∈ reads, ∀ stat ∈ records, stat.len ≤ r.count.toNat)
    (h : src.At rem last world) (hended : 0 < ended.toNat) (hlast : ended.toNat < last.toNat)
    (hroom : last.toNat + reads.length * 2^32 ≤ 2^64)
    (hstreams : Streams src.read records world ended got reads) :
    ∀ r ∈ reads, DirRead.continues r = false := by
  induction reads generalizing rem last world ended got with
  | nil => exact nofun
  | cons r reads ih =>
    cases r with
    | next count =>
      obtain ⟨taken, world', hread, -⟩ := hstreams
      have hne0 : ended ≠ 0 := by
        intro heq
        subst heq
        exact Nat.lt_irrefl 0 hended
      have hother : ended ≠ last := by
        intro heq
        subst heq
        exact Nat.lt_irrefl _ hlast
      obtain ⟨text, world'', herror, -⟩ := Source.read_refused count h hne0 hother
      cases hread.symm.trans herror
    | rewind count =>
      obtain ⟨taken, rest, seen, world', ended', -, hat, hrest, hpos, hsum, hroom'⟩ :=
        Restart.rewind_of_streams hreset hfit hne (hcount _ List.mem_cons_self) h hroom hstreams
      intro r' hr'
      obtain rfl | hr' := List.mem_cons.mp hr'
      · rfl
      · exact ih (fun r hr => hcount r (List.mem_cons_of_mem _ hr)) hat hpos (by omega) (by omega)
          hrest r' hr'

/-- In step with the server, a client that succeeds makes one pass. -/
theorem Restart.onePass_of_streams (hreset : ∀ offset, src.reset offset = offset)
    (hfit : ∀ stat ∈ records, stat.len - 2 < 2^16) (hne : records ≠ [])
    (hcount : ∀ r ∈ reads, ∀ stat ∈ records, stat.len ≤ r.count.toNat)
    (h : src.At rem last world) (hgot : got ++ rem = records) (hlast : 0 < last.toNat)
    (hroom : last.toNat + reads.length * 2^32 ≤ 2^64) {seen : List Stat}
    (hstreams : Streams src.read records world last seen reads) : OnePass reads := by
  induction reads generalizing rem last world got seen with
  | nil => exact nofun
  | cons r reads ih =>
    have hcount' : ∀ r ∈ reads, ∀ stat ∈ records, stat.len ≤ r.count.toNat := fun r hr =>
      hcount r (List.mem_cons_of_mem _ hr)
    cases r with
    | next count =>
      obtain ⟨taken, world', hread, -, -, hrest⟩ := hstreams
      have hne0 : last ≠ 0 := by
        intro heq
        subst heq
        exact Nat.lt_irrefl 0 hlast
      obtain ⟨taken', rest, world'', hcuts, hread', hat⟩ := Restart.read_on count hfit hgot h hne0
      obtain ⟨hdata, rfl⟩ := EStateM.Result.ok.inj (hread.symm.trans hread')
      have hrem : ∀ stat ∈ rem, stat.len - 2 < 2^16 := fun stat hstat =>
        hfit stat (hgot ▸ List.mem_append_right got hstat)
      obtain ⟨hsum, hroom', -⟩ := toNat_advance (hcuts.length_le hrem) hroom
      have hrecords : got ++ taken' ++ rest = records := by
        rw [List.append_assoc, ← hcuts.append, hgot]
      rw [hdata] at hrest
      exact ih hcount' hat hrecords (by omega) (by omega) hrest
    | rewind count =>
      obtain ⟨taken, rest, seen', world', ended', -, hat, hrest, hpos, hsum, hroom'⟩ :=
        Restart.rewind_of_streams hreset hfit hne (hcount _ List.mem_cons_self) h hroom hstreams
      have hrewinds := Restart.rewinds_of_streams hreset hfit hne hcount' hat hpos (by omega)
        (by omega) hrest
      intro r' hr'
      obtain rfl | hr' := List.mem_cons.mp hr'
      · rfl
      · exact hrewinds r' hr'

theorem Restart.streams_start (hfit : ∀ stat ∈ records, stat.len - 2 < 2^16) (h : src.At [] 0 world)
    (hreads : (∀ offset, src.reset offset = 0) ∨ OnePass reads) (count : UInt32) :
    Streams src.read records world 0 [] (.rewind count :: reads) := by
  have hoffset : (DirRead.rewind count).offset 0 = 0 := rfl
  refine Restart.streams_restart hfit h hoffset fun taken rest world' hrecords hat => ?_
  rw [src.reset_zero, UInt64.zero_add] at hat
  exact Restart.streams_synced hfit hat hrecords hreads

/-- What the law takes of a listing that keeps its last offset: one pass, or
nothing to list. -/
theorem Restart.streams_iff_onePass (hreset : ∀ offset, src.reset offset = offset)
    (hfit : ∀ stat ∈ records, stat.len - 2 < 2^16) {count : UInt32}
    (hcount : ∀ r ∈ DirRead.rewind count :: reads, ∀ stat ∈ records, stat.len ≤ r.count.toNat)
    (hroom : reads.length < 2^32 - 1) (h : src.At [] 0 world) :
    Streams src.read records world 0 [] (.rewind count :: reads) ↔
      records = [] ∨ OnePass reads := by
  constructor
  · intro hstreams
    by_cases hne : records = []
    · exact .inl hne
    · right
      have hstart : (0 : UInt64).toNat + (reads.length + 1) * 2^32 ≤ 2^64 := by
        rw [UInt64.toNat_zero]
        omega
      obtain ⟨taken, rest, seen, world', ended', hrecords, hat, hrest, hpos, -, hroom'⟩ :=
        Restart.rewind_of_streams hreset hfit hne (hcount _ List.mem_cons_self) h hstart hstreams
      rw [UInt64.zero_add] at hat
      rw [UInt64.toNat_zero, Nat.zero_add] at hroom'
      exact Restart.onePass_of_streams hreset hfit hne
        (fun r hr => hcount r (List.mem_cons_of_mem _ hr)) hat hrecords hpos hroom' hrest
  · intro hcase
    obtain hnil | hpass := hcase
    · exact Restart.streams_empty hnil h
    · exact Restart.streams_start hfit h (.inr hpass) count

end Restart

def dirRestart (session : Session) (path : Path) (n : Nat) (fs : Nat → Fs) (records : List Stat)
    (hrecords : ∀ t, dirRecords session (fs t) path = some records) :
    Restart (ByteString × Metadata) fs records where
  toSource := dirSource session path n fs records hrecords
  reset offset := offset
  reset_zero := rfl
  seek_restart {world} h := by
    obtain ⟨dents, hdents, hlist⟩ := Option.map_eq_some_iff.mp (hrecords world.clock)
    have hcall : (world.fs world.clock).readDir path = .ok dents := by
      rw [h, toOption_eq_some hdents]
    obtain ⟨world', hseek, hfs, hlock⟩ := seekDir_zero hcall
    have hlisted : List.Forall₂ (fun entry record => stat session entry.1 entry.2 = record)
        (listed dents) records := by
      rw [← hlist, List.forall₂_map_right_iff]
      exact List.forall₂_same.mpr fun _ _ => rfl
    exact ⟨listed dents, world', hseek, hfs.trans h, hlock, hlisted⟩

def rootRestart (config : Config) (session : Session) (n : Nat) (fs : Nat → Fs)
    (records : List Stat) (hrecords : ∀ t, rootRecords config session (fs t) = some records) :
    Restart ByteString fs records where
  toSource := rootSource config session n fs records hrecords
  reset _ := 0
  reset_zero := rfl
  seek_restart {world} h := by
    obtain ⟨world', hseek, hfs, -, hlock⟩ := seekRoot_zero config n world
    exact ⟨_, world', hseek, hfs.trans h, hlock, forall₂_forall fun t => mapM_forall₂ (hrecords t)⟩

def OpenResource.records (self : OpenResource) (fs : Fs) : Option (List Stat) :=
  match self.inner with
  | .root _ => rootRecords self.handler self.session fs
  | .dir path _ => dirRecords self.session fs path
  | .file _ | .rpc => none

def OpenResource.Fresh (self : OpenResource) (world : World) : Prop :=
  match self.inner with
  | .root n => world.roots n = {}
  | .dir _ n => world.dirs n = {}
  | .file _ | .rpc => True

theorem open_fresh {res : PathResource} {mode : UInt8} {self : OpenResource} {world world' : World}
    (h : (res.open_ mode).run world = .ok self world') : self.Fresh world' := by
  cases open_cases h with
  | root => exact if_pos rfl
  | rpc => trivial
  | dir => exact if_pos rfl
  | file => trivial

/-- A directory as a stream. Over an unchanging directory, and with counts that
have room for any record, every read of the root succeeds and the passes each
return the listing from its front; and so does every read of a directory on a
share as long as nothing is continued after the first pass, or there is nothing
to list. Otherwise a read fails. -/
theorem directory_reads_stream (self : OpenResource) (world : World) (records : List Stat)
    (count : UInt32) (reads : List DirRead)
    (hrecords : ∀ t, self.records (world.fs t) = some records) (hnew : self.Fresh world)
    (hfit : ∀ stat ∈ records, stat.len - 2 < 2^16)
    (hcount : ∀ r ∈ DirRead.rewind count :: reads, ∀ stat ∈ records, stat.len ≤ r.count.toNat) :
    ((∃ n, self.inner = .root n) ∨ records = [] ∨ OnePass reads →
      Streams self.read records world 0 [] (.rewind count :: reads)) ∧
    (reads.length < 2^32 - 1 → Streams self.read records world 0 [] (.rewind count :: reads) →
      (∃ n, self.inner = .root n) ∨ records = [] ∨ OnePass reads) := by
  obtain ⟨config, session, qid, name, inner⟩ := self
  cases inner with
  | root n =>
    refine ⟨fun _ => ?_, fun _ _ => .inl ⟨n, rfl⟩⟩
    let src := rootRestart config session n world.fs records hrecords
    have hat : src.At [] 0 world := Source.at_new rfl hnew
    exact Restart.streams_start hfit hat (.inl fun _ => rfl) count
  | dir path n =>
    let src := dirRestart session path n world.fs records hrecords
    have hat : src.At [] 0 world := Source.at_new rfl hnew
    refine ⟨fun hwhen => ?_, fun hroom hstreams => .inr ?_⟩
    · obtain ⟨n, hroot⟩ | hnil | hpass := hwhen
      · cases hroot
      · exact Restart.streams_empty hnil hat
      · exact Restart.streams_start hfit hat (.inr hpass) count
    · exact (Restart.streams_iff_onePass (fun _ => rfl) hfit hcount hroom hat).mp hstreams
  | file n => cases hrecords 0
  | rpc => cases hrecords 0

def openedRoot : OpenResource :=
  ⟨mainConfig, ⟨1, "glenda"⟩, rootQid, "/", .root 0⟩

theorem directory_reads_stream_root : ∃ records, (records.map Stat.name = ["rpc", "forfun", "ff2"]) ∧
    Streams openedRoot.read records { fs := fun _ => Fs.flat [], opened := 1 } 0 []
      [.rewind 100, .next 100, .rewind 1000, .next 1000] := by
  let records : List Stat := ["rpc", "forfun", "ff2"].map fun name =>
    if name = "rpc" then rpcStat ⟨1, "glenda"⟩ else stat ⟨1, "glenda"⟩ name ⟨.dir, 4096, 2⟩
  refine ⟨records, rfl, ?_⟩
  exact (directory_reads_stream openedRoot { fs := fun _ => Fs.flat [], opened := 1 } records 100
    [.next 100, .rewind 1000, .next 1000] (fun _ => rfl) rfl (by decide) (by decide)).1
    (.inl ⟨0, rfl⟩)

def openedShare : OpenResource :=
  ⟨mainConfig, ⟨1, "glenda"⟩, ⟨qtdir, 0, 2⟩, "ff2", .dir (asBytes "forfun") 0⟩

/-- A directory of one file, read from 0 twice and then on: the last read is
refused. -/
theorem directory_reads_stream_counterexample :
    ¬∀ (self : OpenResource) (world : World) (records : List Stat) (count : UInt32)
      (reads : List DirRead), (∀ t, self.records (world.fs t) = some records) →
      self.Fresh world → (∀ stat ∈ records, stat.len - 2 < 2^16) →
      (∀ r ∈ DirRead.rewind count :: reads, ∀ stat ∈ records, stat.len ≤ r.count.toNat) →
      Streams self.read records world 0 [] (.rewind count :: reads) := by
  intro h
  let file : DirEntry := ⟨asBytes "a", ⟨.file, 0, 1⟩⟩
  let records : List Stat := (listed [file]).map fun entry => stat ⟨1, "glenda"⟩ entry.1 entry.2
  have hrecords : ∀ t : Nat, dirRecords ⟨1, "glenda"⟩ (Fs.flat [file]) (asBytes "forfun") =
      some records := fun _ => rfl
  let world : World := { fs := fun _ => Fs.flat [file], opened := 1 }
  have hfit : ∀ stat ∈ records, stat.len - 2 < 2^16 := by decide
  have hcount : ∀ r ∈ [DirRead.rewind 1000, .rewind 1000, .next 1000], ∀ stat ∈ records,
      stat.len ≤ r.count.toNat := by decide
  have hstreams := h openedShare world records 1000 [.rewind 1000, .next 1000] hrecords rfl hfit hcount
  let src := dirRestart ⟨1, "glenda"⟩ (asBytes "forfun") 0 world.fs records hrecords
  have hat : src.At [] 0 world := Source.at_new rfl rfl
  have hpass := (Restart.streams_iff_onePass (fun _ => rfl) hfit hcount (by decide) hat).mp hstreams
  exact absurd hpass (by decide)

end NineWire.Res

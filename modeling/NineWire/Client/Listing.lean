import NineWire.Client.Exchange
import NineWire.Codec.Stream
import NineWire.Res.Listing

/-! A listing end to end. The server counts every byte it put into a read, the
reply carries what fits in a message, and the client counts what it received:
they agree as long as the whole listing fits in one reply. -/
namespace NineWire.Client
open NineWire.Wire NineWire.Server NineWire.Os NineWire.Res NineWire.Stateful NineWire.Codec

def maxRead : Nat := Server.maxMessageSize - rreadOverhead

section Yank
variable {stats : List Stat}

theorem yankStats_drains {data : Bytes} {rounds : Nat}
    (h : Drains (yankStat notag) data stats) (hrounds : stats.length ≤ rounds) :
    yankStats rounds data = (stats, none) := by
  induction h generalizing rounds with
  | done => cases rounds <;> rfl
  | read hne hread _ ih =>
    obtain _ | rounds := rounds
    · cases hrounds
    · have hrest := ih (Nat.le_of_succ_le_succ hrounds)
      simp only [yankStats, List.isEmpty_eq_false_iff.mpr hne, hread, hrest, Bool.false_eq_true,
        if_false]

theorem stats_drain {buf out : Bytes} (tag : UInt16)
    (h : (stats.forM putStat).run buf = .ok ((), out)) :
    ∃ bs, out = buf ++ bs ∧ stats.length ≤ bs.length ∧ Drains (yankStat tag) bs stats := by
  refine RoundTrips.drains (stat_roundTrips tag) stat_writes (fun stat => ?_) h
  exact Nat.lt_of_lt_of_le (by decide) stat.le_len

/-- Whole records decode to what was encoded. -/
theorem yankStats_encodeAll (hfit : ∀ stat ∈ stats, stat.len - 2 < 2^16) {rounds : Nat}
    (hrounds : (encodeAll stats).length ≤ rounds) :
    yankStats rounds (encodeAll stats) = (stats, none) := by
  obtain ⟨bs, hout, hlen, hdrains⟩ := stats_drain notag (putStats_run hfit [])
  obtain rfl := List.append_cancel_left hout
  exact yankStats_drains hdrains (hlen.trans hrounds)

theorem yankStats_ne_nil {data : Bytes} (hdata : data ≠ [])
    (h : yankStats data.length data = (stats, none)) : stats ≠ [] := by
  cases data with
  | nil => exact (hdata rfl).elim
  | cons b data =>
    intro heq
    subst heq
    simp only [List.length_cons, yankStats, List.isEmpty_cons, Bool.false_eq_true, if_false] at h
    split at h <;> cases h

end Yank

section NextEntry
variable {W P O : Type} {handler : Serve W P O} {maxlen : Nat} {tag : UInt16} {offset : UInt64}
  {fid : UInt32} {server server' : Session W P O} {data : Bytes} {stats l : List Stat}

theorem nextEntry_buffered (stat : Stat) (stats : List Stat) :
    (nextEntry handler maxlen tag).run ⟨⟨offset, fid, stat :: stats⟩, server⟩ =
      .ok (some stat) ⟨⟨offset, fid, stats⟩, server⟩ := rfl

theorem onServer_ok {α : Type} {call : EStateM Failure (Session W P O) α} {a : α} (dir : ReadDir)
    (h : call.run server = .ok a server') : (onServer call).run ⟨dir, server⟩ = .ok a ⟨dir, server'⟩ := by
  simp only [onServer, EStateM.run] at h ⊢
  rw [h]

theorem onServer_error {α : Type} {call : EStateM Failure (Session W P O) α} {e : Failure}
    (dir : ReadDir) (h : call.run server = .error e server') :
    (onServer call).run ⟨dir, server⟩ = .error e ⟨dir, server'⟩ := by
  simp only [onServer, EStateM.run] at h ⊢
  rw [h]

/-- Where `next_entry` stands once it has found the buffer empty. -/
theorem nextEntry_empty : (nextEntry handler maxlen tag).run ⟨⟨offset, fid, []⟩, server⟩ =
    (onServer (readAt handler maxlen tag fid 0xFFFFFFFF offset) >>= fun data =>
      (let (stats, e) := yankStats data.length data
      do
        modify fun listing => { listing with
          dir := { offset := offset + UInt64.ofNat data.length, fid, buffer := stats } }
        match e with
        | some e => throw (.error e.toString)
        | none => popFront : EStateM Failure (Listing W P O) (Option Stat))).run
      ⟨⟨offset, fid, []⟩, server⟩ := rfl

/-- A read that decodes fills the buffer, from which the next entry comes. -/
theorem nextEntry_read
    (hread : (readAt handler maxlen tag fid 0xFFFFFFFF offset).run server = .ok data server')
    (hyank : yankStats data.length data = (stats, none)) :
    (nextEntry handler maxlen tag).run ⟨⟨offset, fid, []⟩, server⟩ =
      popFront.run ⟨⟨offset + UInt64.ofNat data.length, fid, stats⟩, server'⟩ := by
  rw [nextEntry_empty, bind_run_ok (onServer_ok _ hread), hyank]
  rfl

theorem nextEntry_undecoded {e : DeserializeError}
    (hread : (readAt handler maxlen tag fid 0xFFFFFFFF offset).run server = .ok data server')
    (hyank : yankStats data.length data = (stats, some e)) :
    ∃ listing, (nextEntry handler maxlen tag).run ⟨⟨offset, fid, []⟩, server⟩ =
      .error (.error e.toString) listing := by
  rw [nextEntry_empty, bind_run_ok (onServer_ok _ hread), hyank]
  exact ⟨_, rfl⟩

theorem nextEntry_failed {e : Failure}
    (hread : (readAt handler maxlen tag fid 0xFFFFFFFF offset).run server = .error e server') :
    ∃ listing, (nextEntry handler maxlen tag).run ⟨⟨offset, fid, []⟩, server⟩ =
      .error e listing := by
  rw [nextEntry_empty, bind_run_error (onServer_error _ hread)]
  exact ⟨_, rfl⟩

/-- Nothing is listed where the next entry is an error. -/
theorem not_lists_of_error {listing listing' : Listing W P O} {e : Failure}
    (h : (nextEntry handler maxlen tag).run listing = .error e listing') :
    ¬Lists handler maxlen tag listing l := by
  intro hlists
  cases hlists with
  | done hnext => cases h.symm.trans hnext
  | entry hnext hrest => cases h.symm.trans hnext

/-- The buffered records come first. -/
theorem lists_buffered : Lists handler maxlen tag ⟨⟨offset, fid, stats⟩, server⟩ l ↔
    ∃ l', l = stats ++ l' ∧ Lists handler maxlen tag ⟨⟨offset, fid, []⟩, server⟩ l' := by
  induction stats generalizing l with
  | nil => simp
  | cons stat stats ih =>
    have hnext : (nextEntry handler maxlen tag).run ⟨⟨offset, fid, stat :: stats⟩, server⟩ = _ :=
      nextEntry_buffered stat stats
    constructor
    · intro h
      cases h with
      | done hnext' => cases hnext.symm.trans hnext'
      | entry hnext' hrest =>
        cases hnext.symm.trans hnext'
        obtain ⟨l', rfl, h⟩ := ih.mp hrest
        exact ⟨l', rfl, h⟩
    · intro hcase
      obtain ⟨l', rfl, h⟩ := hcase
      exact .entry hnext (ih.mpr ⟨l', rfl, h⟩)

/-- After a read that decodes, its records are listed, and then what the next
reads bring. -/
theorem lists_read
    (hread : (readAt handler maxlen tag fid 0xFFFFFFFF offset).run server = .ok data server')
    (hyank : yankStats data.length data = (stats, none)) (hne : stats ≠ []) :
    Lists handler maxlen tag ⟨⟨offset, fid, []⟩, server⟩ l ↔
      Lists handler maxlen tag ⟨⟨offset + UInt64.ofNat data.length, fid, stats⟩, server'⟩ l := by
  obtain ⟨stat, stats, rfl⟩ := List.exists_cons_of_ne_nil hne
  have hnext := nextEntry_read hread hyank
  have hbuffered : (nextEntry handler maxlen tag).run
      ⟨⟨offset + UInt64.ofNat data.length, fid, stat :: stats⟩, server'⟩ = _ :=
    nextEntry_buffered stat stats
  have hsame : (nextEntry handler maxlen tag).run ⟨⟨offset, fid, []⟩, server⟩ = _ :=
    hnext.trans hbuffered
  constructor
  · intro h
    cases h with
    | done hnext' => cases hsame.symm.trans hnext'
    | entry hnext' hrest =>
      cases hsame.symm.trans hnext'
      exact .entry hbuffered hrest
  · intro h
    cases h with
    | done hnext' => cases hbuffered.symm.trans hnext'
    | entry hnext' hrest =>
      cases hbuffered.symm.trans hnext'
      exact .entry hsame hrest

theorem lists_end
    (hread : (readAt handler maxlen tag fid 0xFFFFFFFF offset).run server = .ok [] server') :
    Lists handler maxlen tag ⟨⟨offset, fid, []⟩, server⟩ [] :=
  .done (nextEntry_read hread rfl)

end NextEntry

/-- A server session at the other end of a listing: idle, with `fid` open on
`src`, of which `rem` is still to come after `last`. -/
structure Serving {α : Type} {fs : Nat → Fs} {records : List Stat} (src : Source α fs records)
    (fid : UInt32) (rem : List Stat) (last : UInt64) (server : Server.Session World PathResource OpenResource) : Prop where
  idle : Idle server
  bound : ∃ res, server.mgr.resources fid = some (.open_ res) ∧
    ∀ offset count, res.read offset count = src.read offset count
  cursor : src.At rem last server.mgr.world

section Serving
variable {α : Type} {fs : Nat → Fs} {records rem rem' l : List Stat} {src : Source α fs records}
  {config : Config} {maxlen : Nat} {tag : UInt16} {fid : UInt32} {last last' offset : UInt64} {count : UInt32}
  {server server' : Server.Session World PathResource OpenResource} {data : Bytes} {world : World}

/-- A read of the listing is what the source reads, cut to what an Rread can
carry. -/
theorem readAt_serving (config : Config) (maxlen : Nat) (tag : UInt16)
    (h : Serving src fid rem last server)
    (hread : (src.read offset count).run server.mgr.world = .ok data world)
    (hcursor : src.At rem' last' world) :
    ∃ server', (readAt (Res.handler config) maxlen tag fid count offset).run server =
        .ok (data.take maxRead) server' ∧ Serving src fid rem' last' server' := by
  obtain ⟨res, hres, hsrc⟩ := h.bound
  rw [← hsrc] at hread
  have hserved : Served (Res.handler config) Server.maxMessageSize server.mgr
      (.tread ⟨fid, offset, count⟩) (.rread ⟨data.take maxRead⟩) { server.mgr with world } :=
    .tread hres hread
  have hmax : maxRead = 1185 := rfl
  have hfits : (RMessage.rread ⟨data.take maxRead⟩).len ≤ maxMessageSize := by
    simp only [RMessage.len, List.length_take, maxMessageSize]
    omega
  have hencodable : (RMessage.rread ⟨data.take maxRead⟩).Encodable := by
    simp only [RMessage.Encodable, List.length_take]
    omega
  obtain ⟨server', hrun, hidle, hmgr⟩ : ∃ server', (transact _ maxlen tag _).run server = _ ∧ _ :=
    tread_reply h.idle (.served hserved.run) trivial hencodable hfits
  refine ⟨server', ?_, hidle, ⟨res, ?_, hsrc⟩, ?_⟩
  · rw [readAt, bind_run_ok hrun]
    rfl
  · rw [hmgr]
    exact hres
  · rwa [hmgr]

theorem readAt_refused (config : Config) (maxlen : Nat) (tag : UInt16) {text : ByteString}
    (h : Serving src fid rem last server)
    (hread : (src.read offset count).run server.mgr.world = .error (.err text) world)
    (htext : (asBytes text).length ≤ 1000) :
    ∃ server', (readAt (Res.handler config) maxlen tag fid count offset).run server =
        .error (.error text) server' := by
  obtain ⟨res, hres, hsrc⟩ := h.bound
  rw [← hsrc] at hread
  have hfails : CallFails (Res.handler config) server.mgr (.tread ⟨fid, offset, count⟩) (.err text)
      world := .tread hres hread
  obtain ⟨hencodable, hfits⟩ := rerror_fits htext
  obtain ⟨server', hrun, hidle, hmgr⟩ : ∃ server', (transact _ maxlen tag _).run server = _ ∧ _ :=
    tread_reply h.idle (.failed hfails.run) trivial hencodable hfits
  refine ⟨server', ?_⟩
  rw [readAt, bind_run_ok hrun]
  rfl

/-- A read anywhere but at the start or where the last one stopped ends the
listing with an error. -/
theorem not_lists_refused (h : Serving src fid rem last server) (hoffset : offset ≠ 0)
    (hlast : offset ≠ last) :
    ¬Lists (Res.handler config) maxlen tag ⟨⟨offset, fid, []⟩, server⟩ l := by
  obtain ⟨text, world, hread, htext⟩ := Source.read_refused 0xFFFFFFFF h.cursor hoffset hlast
  obtain ⟨server', hread⟩ := readAt_refused config maxlen tag h hread htext
  obtain ⟨listing, hnext⟩ := nextEntry_failed hread
  exact not_lists_of_error hnext

theorem ofNat_ne {n k : Nat} (hn : n < 2^64) (hk : k < 2^64) (h : n ≠ k) :
    UInt64.ofNat n ≠ UInt64.ofNat k := by
  intro heq
  have hnat := congrArg UInt64.toNat heq
  rw [UInt64.toNat_ofNat_of_lt' hn, UInt64.toNat_ofNat_of_lt' hk] at hnat
  exact h hnat

theorem fit_of_le_maxRead (h : ∀ stat ∈ records, stat.len ≤ maxRead) :
    ∀ stat ∈ records, stat.len - 2 < 2^16 := by
  intro stat hstat
  have hle := h stat hstat
  have hmax : maxRead = 1185 := rfl
  omega

theorem mem_taken {taken rest : List Stat} {n : Nat} {P : Stat → Prop} (hcuts : Cuts n rem taken rest)
    (h : ∀ stat ∈ rem, P stat) : ∀ stat ∈ taken, P stat :=
  fun stat hstat => h stat (hcuts.append ▸ List.mem_append_left rest hstat)

/-- The first read: all the records its count has room for, cut to what an
Rread can carry. -/
theorem readAt_first (config : Config) (maxlen : Nat) (tag : UInt16)
    (h : Serving src fid [] 0 server) (hfit : ∀ stat ∈ records, stat.len - 2 < 2^16) :
    ∃ taken rest server', Cuts 4294967295 records taken rest ∧
      (encodeAll taken).length = lenAll taken ∧
      (readAt (Res.handler config) maxlen tag fid 0xFFFFFFFF 0).run server =
        .ok ((encodeAll taken).take maxRead) server' ∧
      Serving src fid rest (UInt64.ofNat (lenAll taken)) server' := by
  obtain ⟨taken, rest, world, hcuts, hread, hcursor⟩ := Source.read_start 0xFFFFFFFF hfit h.cursor
  obtain ⟨server', hreadAt, hserving⟩ := readAt_serving config maxlen tag h hread hcursor
  exact ⟨taken, rest, server', hcuts, encodeAll_length (mem_taken hcuts hfit), hreadAt, hserving⟩

/-- A listing that fits in one reply is received whole. -/
theorem lists_all (h : Serving src fid [] 0 server)
    (hfit : ∀ stat ∈ records, stat.len ≤ maxRead) (htotal : lenAll records ≤ maxRead) :
    Lists (Res.handler config) maxlen tag ⟨⟨0, fid, []⟩, server⟩ records := by
  have hfit' := fit_of_le_maxRead hfit
  have hmax : maxRead = 1185 := rfl
  obtain ⟨taken, rest, server', hcuts, hlen, hreadAt, hserving⟩ :=
    readAt_first config maxlen tag h hfit'
  -- the server's read is not cut, and neither is the reply
  obtain rfl : rest = [] := by
    cases rest with
    | nil => rfl
    | cons next rest =>
      have hfull := hcuts.full next rfl
      have hsum : lenAll records = lenAll taken + lenAll (next :: rest) := by
        rw [hcuts.append, lenAll_append]
      simp only [lenAll, List.map_cons, List.sum_cons] at hsum hfull htotal
      omega
  obtain rfl : records = taken := by simpa using hcuts.append
  have htake : (encodeAll records).take maxRead = encodeAll records :=
    List.take_of_length_le (by omega)
  rw [htake] at hreadAt
  have hyank : yankStats (encodeAll records).length (encodeAll records) = (records, none) :=
    yankStats_encodeAll hfit' le_rfl
  by_cases hnil : records = []
  · subst hnil
    exact lists_end hreadAt
  · rw [lists_read hreadAt hyank hnil, lists_buffered]
    refine ⟨[], by simp, ?_⟩
    have hpos : lenAll records ≠ 0 := by
      obtain ⟨stat, stats, rfl⟩ := List.exists_cons_of_ne_nil hnil
      have hmin := stat.le_len
      simp only [lenAll, List.map_cons, List.sum_cons]
      omega
    have hlast : UInt64.ofNat (lenAll records) ≠ UInt64.ofNat 0 :=
      ofNat_ne (by omega) (by decide) hpos
    obtain ⟨taken, rest, world', hcuts', hread', hcursor'⟩ :=
      Source.read_next 0xFFFFFFFF (by simp) hserving.cursor hlast
    obtain ⟨rfl, rfl⟩ := List.append_eq_nil_iff.mp hcuts'.append.symm
    obtain ⟨server'', hreadAt', -⟩ := readAt_serving config maxlen tag hserving hread' hcursor'
    rw [UInt64.zero_add, hlen]
    exact lists_end hreadAt'

/-- A listing that does not is never received. -/
theorem not_lists (h : Serving src fid [] 0 server)
    (hfit : ∀ stat ∈ records, stat.len ≤ maxRead) (htotal : maxRead < lenAll records) :
    ¬Lists (Res.handler config) maxlen tag ⟨⟨0, fid, []⟩, server⟩ l := by
  have hfit' := fit_of_le_maxRead hfit
  have hmax : maxRead = 1185 := rfl
  obtain ⟨taken, rest, server', hcuts, hlen, hreadAt, hserving⟩ :=
    readAt_first config maxlen tag h hfit'
  have hfits := hcuts.fits
  -- the server read more than the reply can carry
  have hmore : maxRead < lenAll taken := by
    cases rest with
    | nil =>
      rw [hcuts.append, List.append_nil] at htotal
      exact htotal
    | cons next rest =>
      have hfull := hcuts.full next rfl
      have hnext := hfit next (hcuts.append ▸ List.mem_append_right taken List.mem_cons_self)
      omega
  have htake : ((encodeAll taken).take maxRead).length = maxRead := by
    rw [List.length_take]
    omega
  obtain ⟨stats, e, hyank⟩ : ∃ stats e, yankStats ((encodeAll taken).take maxRead).length
      ((encodeAll taken).take maxRead) = (stats, e) := ⟨_, _, rfl⟩
  cases e with
  | some e =>
    obtain ⟨listing, hnext⟩ := nextEntry_undecoded hreadAt hyank
    exact not_lists_of_error hnext
  | none =>
    have hne : (encodeAll taken).take maxRead ≠ [] := by
      intro hnil
      rw [hnil] at htake
      cases htake
    rw [lists_read hreadAt hyank (yankStats_ne_nil hne hyank), lists_buffered, htake]
    intro hcase
    obtain ⟨l', -, hlists⟩ := hcase
    have hlast : UInt64.ofNat maxRead ≠ UInt64.ofNat (lenAll taken) :=
      ofNat_ne (by decide) (by omega) (by omega)
    rw [UInt64.zero_add] at hlists
    exact not_lists_refused hserving (by decide) hlast hlists

theorem readDir_serving (config : Config) (maxlen : Nat) (tag : UInt16) {res : PathResource}
    {new : OpenResource} (hidle : Idle server)
    (hres : server.mgr.resources fid = some (.path res))
    (hopen : (res.open_ 0).run server.mgr.world = .ok new world)
    (hqid : new.qid.type_ &&& qtdir = qtdir)
    (hsrc : ∀ offset count, new.read offset count = src.read offset count)
    (hcursor : src.At [] 0 world) :
    ∃ server', (readDir (Res.handler config) maxlen tag fid).run server = .ok ⟨0, fid, []⟩ server' ∧
      Serving src fid [] 0 server' := by
  have hserved : Served (Res.handler config) Server.maxMessageSize server.mgr (.topen ⟨fid, 0⟩)
      (.ropen ⟨new.qid, 0⟩) (server.mgr.bound fid (.open_ new) world) := .topen hres hopen
  obtain ⟨incoming, hser, hlen⟩ := topen_serialize ⟨fid, 0⟩ tag
  have hreq : Dispatched (.topen ⟨fid, 0⟩) := trivial
  have hfits : (RMessage.ropen ⟨new.qid, 0⟩).len ≤ maxMessageSize := (by decide : 20 ≤ 1192)
  obtain ⟨server', hrun, hidle', hmgr⟩ : ∃ server', (transact _ maxlen tag _).run server = _ ∧ _ :=
    transact_reply hidle hreq rfl trivial hser (by rw [hlen]; decide) (.served hserved.run)
      trivial trivial hfits
  have hopenFid : (openFid (Res.handler config) maxlen tag fid).run server = .ok new.qid server' := by
    rw [openFid, bind_run_ok hrun]
    rfl
  refine ⟨server', ?_, hidle', ⟨new, ?_, hsrc⟩, ?_⟩
  · rw [readDir, bind_run_ok hopenFid, if_neg (not_not.mpr hqid)]
    rfl
  · rw [hmgr]
    exact Function.update_self _ _ _
  · rwa [hmgr]

/-- A directory opens as the listing of its records. -/
theorem readDir_opens (config : Config) (maxlen : Nat) (tag : UInt16) {res : PathResource}
    (hidle : Idle server) (hres : server.mgr.resources fid = some (.path res))
    (hdir : res.qid.type_ &&& qtdir = qtdir)
    (hrecords : ∀ t, res.records (server.mgr.world.fs t) = some records) :
    ∃ (β : Type) (src : Source β server.mgr.world.fs records) (server' : _),
      (readDir (Res.handler config) maxlen tag fid).run server = .ok ⟨0, fid, []⟩ server' ∧
      Serving src fid [] 0 server' := by
  obtain ⟨handler, session, qid, inner⟩ := res
  let n := server.mgr.world.opened
  cases inner with
  | root =>
    let src := rootSource handler session n server.mgr.world.fs records hrecords
    have hqid : rootQid.type_ &&& qtdir = qtdir := by decide
    have hcursor : src.At [] 0 server.mgr.world.withMutex := Source.at_new rfl (if_pos rfl)
    exact ⟨_, src, readDir_serving config maxlen tag hidle hres rfl hqid (fun _ _ => rfl) hcursor⟩
  | rpc => cases hrecords 0
  | onShare share rem =>
    let self : PathResource := ⟨handler, session, qid, .onShare share rem⟩
    obtain ⟨path, hpath, -⟩ := Option.bind_eq_some_iff.mp (hrecords 0)
    have hdirRecords (t : Nat) : dirRecords session (server.mgr.world.fs t) path = some records := by
      have hbind : self.realPath.bind (dirRecords session (server.mgr.world.fs t)) = some records :=
        hrecords t
      rwa [hpath] at hbind
    let src := dirSource session path n server.mgr.world.fs records hdirRecords
    have hinner : self.inner = .onShare share rem := rfl
    have hopen := open_dir_run hinner hpath hdir server.mgr.world
    have hcursor : src.At [] 0 server.mgr.world.withMutex := Source.at_new rfl (if_pos rfl)
    exact ⟨_, src, readDir_serving config maxlen tag hidle hres hopen hdir (fun _ _ => rfl) hcursor⟩

/-- A directory whose listing does not fit in one reply is never received. -/
theorem not_receives (config : Config) (maxlen : Nat) (tag : UInt16) {res : PathResource}
    (hidle : Idle server) (hres : server.mgr.resources fid = some (.path res))
    (hdir : res.qid.type_ &&& qtdir = qtdir)
    (hrecords : ∀ t, res.records (server.mgr.world.fs t) = some records)
    (hfit : ∀ stat ∈ records, stat.len ≤ maxRead) (hmore : maxRead < lenAll records) :
    ¬Receives (Res.handler config) maxlen tag server fid l := by
  obtain ⟨β, src, server', hopen, hserving⟩ :=
    readDir_opens config maxlen tag hidle hres hdir hrecords
  intro h
  obtain ⟨dir, server'', hopen', hlists⟩ := h
  cases hopen.symm.trans hopen'
  exact not_lists hserving hfit hmore hlists

end Serving

/-- A directory listing, end to end: while the records of a directory stay as
they are, a client that opens it and lists it receives them, each once and in
order, exactly when all of them fit in one reply. -/
theorem listing_end_to_end (config : Config) (maxlen : Nat) (tag : UInt16) (fid : UInt32)
    (server : Server.Session World PathResource OpenResource) (res : PathResource)
    (records : List Stat) (hidle : Idle server)
    (hres : server.mgr.resources fid = some (.path res)) (hdir : res.qid.type_ &&& qtdir = qtdir)
    (hrecords : ∀ t, res.records (server.mgr.world.fs t) = some records)
    (hfit : ∀ stat ∈ records, stat.len ≤ maxRead) :
    Receives (Res.handler config) maxlen tag server fid records ↔ lenAll records ≤ maxRead := by
  constructor
  · intro hreceives
    by_contra hmore
    exact not_receives config maxlen tag hidle hres hdir hrecords hfit (Nat.lt_of_not_le hmore)
      hreceives
  · intro htotal
    obtain ⟨β, src, server', hopen, hserving⟩ :=
      readDir_opens config maxlen tag hidle hres hdir hrecords
    exact ⟨_, server', hopen, lists_all hserving hfit htotal⟩

def mainServer (dents : List DirEntry) (res : PathResource) :
    Server.Session World PathResource OpenResource where
  mgr := {
    resources := fun fid => if fid = 0 then some (.path res) else none
    world := { fs := fun _ => Fs.flat dents } }
  inflight := []
  initialized := true
  nextSession := none
  pc := .select
  serial := 0
  log := []

def glenda : Res.Session := ⟨1, "glenda"⟩

theorem listing_end_to_end_root : ∃ records,
    Receives (Res.handler mainConfig) 1192 1
        (mainServer [] (PathResource.root mainConfig glenda)) 0 records ∧
      records.map Stat.name = ["rpc", "forfun", "ff2"] := by
  let records : List Stat := ["rpc", "forfun", "ff2"].map fun name =>
    if name = "rpc" then rpcStat glenda else Res.stat glenda name ⟨.dir, 4096, 2⟩
  have hreceives := listing_end_to_end mainConfig 1192 1 0
    (mainServer [] (PathResource.root mainConfig glenda)) (PathResource.root mainConfig glenda)
    records ⟨rfl, rfl, rfl, rfl⟩ rfl (by decide) (fun _ => rfl) (by decide)
  exact ⟨records, hreceives.mpr (by decide), rfl⟩

def files : List DirEntry :=
  (List.range 30).map fun i => ⟨asBytes (Nat.repr i), ⟨.file, 0, UInt64.ofNat i⟩⟩

def ff2 : PathResource := ⟨mainConfig, glenda, ⟨qtdir, 0, 2⟩, .onShare "ff2" []⟩

theorem thirty_files_unlisted : ∃ records : List Stat,
    ff2.records (Fs.flat files) = some records ∧ (∀ stat ∈ records, stat.len ≤ maxRead) ∧
      ∀ stats, ¬Receives (Res.handler mainConfig) 1192 1 (mainServer files ff2) 0 stats := by
  let records : List Stat := (listed files).map fun entry => Res.stat glenda entry.1 entry.2
  have hrecords : ff2.records (Fs.flat files) = some records := rfl
  have hfit : ∀ stat ∈ records, stat.len ≤ maxRead := by decide +kernel
  have hmore : maxRead < lenAll records := by decide +kernel
  have hidle : Idle (mainServer files ff2) := ⟨rfl, rfl, rfl, rfl⟩
  have hres : (mainServer files ff2).mgr.resources 0 = some (.path ff2) := rfl
  exact ⟨records, hrecords, hfit, fun stats =>
    not_receives mainConfig 1192 1 hidle hres (by decide) (fun _ => hrecords) hfit hmore⟩

end NineWire.Client

import NineWire.Res.Path
import NineWire.Server.Resources

/-! The law of the fid table. A dispatch that fails leaves the table alone, a
remove apart; one that succeeds binds, opens or unbinds a single fid. So a
binding goes from path to open and is given up, and nothing else, in any run. -/
namespace NineWire.Server
open NineWire.Wire NineWire.Transition

variable {W P O : Type}

inductive Changes (table : FidTable P O) : TMessage → FidTable P O → Prop
  | tauth {afid uname aname} (res : O) (hfid : afid ≠ nofid) (hfree : table afid = none) :
      Changes table (.tauth ⟨afid, uname, aname⟩) (Function.update table afid (some (.open_ res)))
  | tattach {fid afid uname aname} (res : P) (hfid : fid ≠ nofid) (hfree : table fid = none) :
      Changes table (.tattach ⟨fid, afid, uname, aname⟩)
        (Function.update table fid (some (.path res)))
  | twalk {fid newfid wname} (new : P) (hfid : newfid ≠ nofid) (hfree : table newfid = none) :
      Changes table (.twalk ⟨fid, newfid, wname⟩) (Function.update table newfid (some (.path new)))
  | twalkPart {fid newfid wname} : Changes table (.twalk ⟨fid, newfid, wname⟩) table
  | topen {fid mode res} (new : O) (hres : table fid = some (.path res)) :
      Changes table (.topen ⟨fid, mode⟩) (Function.update table fid (some (.open_ new)))
  | tcreate {fid name perm mode res} (new : O) (hres : table fid = some (.path res)) :
      Changes table (.tcreate ⟨fid, name, perm, mode⟩)
        (Function.update table fid (some (.open_ new)))
  | tread {m} : Changes table (.tread m) table
  | twrite {m} : Changes table (.twrite m) table
  | tclunk {fid resource} (hres : table fid = some resource) :
      Changes table (.tclunk ⟨fid⟩) (Function.update table fid none)
  | tremove {fid resource} (hres : table fid = some resource) :
      Changes table (.tremove ⟨fid⟩) (Function.update table fid none)
  | tstat {m} : Changes table (.tstat m) table
  | twstat {m} : Changes table (.twstat m) table

/-- What can happen to one fid: a free one is bound, a path is opened, a
binding is given up. -/
inductive BindingStep : Option (Resource P O) → Option (Resource P O) → Prop
  | same (binding : Option (Resource P O)) : BindingStep binding binding
  | bind (resource : Resource P O) : BindingStep none (some resource)
  | open_ (res : P) (new : O) : BindingStep (some (.path res)) (some (.open_ new))
  | unbind (resource : Resource P O) : BindingStep (some resource) none

section Bindings
variable {handler : Serve W P O} {maxlen : Nat} {mgr mgr' : ResourceManager W P O}
  {table table' : FidTable P O} {req : TMessage} {resp : RMessage} {e : Abort}
  {s s' : Session W P O} {a : Action}

theorem Served.changes (h : Served handler maxlen mgr req resp mgr') :
    Changes mgr.resources req mgr'.resources := by
  cases h with
  | tauth hfid hfree hcall => exact .tauth _ hfid hfree
  | tattach hfid hfree hares hcall => exact .tattach _ hfid hfree
  | twalkFull hfid hfree hres hcall => exact .twalk _ hfid hfree
  | twalkPart hfid hfree hres hcall => exact .twalkPart
  | topen hres hcall => exact .topen _ hres
  | tcreate hres hcall => exact .tcreate _ hres
  | tread hres hcall => exact .tread
  | twrite hres hcall => exact .twrite
  | tclunk hres => exact .tclunk hres
  | tremove hres hcall => exact .tremove hres
  | tstat hres hcall => exact .tstat
  | twstat hres hcall => exact .twstat

theorem Failed.resources (h : Failed handler mgr req e mgr') :
    mgr'.resources = afterError mgr.resources req := by
  cases h with
  | unimplemented hreq => obtain ⟨m, rfl⟩ | ⟨m, rfl⟩ := hreq <;> rfl
  | refused hename hsame => exact hsame.symm
  | call hcall => rfl

theorem bindingStep_update {fid : UInt32} {binding : Option (Resource P O)}
    (h : BindingStep (table fid) binding) (fid' : UInt32) :
    BindingStep (table fid') (Function.update table fid binding fid') := by
  by_cases hfid : fid' = fid
  · subst hfid
    rwa [Function.update_self]
  · rw [Function.update_of_ne hfid]
    exact .same _

theorem bindingStep_unbind (binding : Option (Resource P O)) : BindingStep binding none := by
  cases binding with
  | none => exact .same none
  | some resource => exact .unbind resource

theorem Changes.bindingStep (h : Changes table req table') (fid : UInt32) :
    BindingStep (table fid) (table' fid) := by
  cases h with
  | tauth res hfid hfree => exact bindingStep_update (by rw [hfree]; exact .bind _) fid
  | tattach res hfid hfree => exact bindingStep_update (by rw [hfree]; exact .bind _) fid
  | twalk new hfid hfree => exact bindingStep_update (by rw [hfree]; exact .bind _) fid
  | topen new hres => exact bindingStep_update (by rw [hres]; exact .open_ _ _) fid
  | tcreate new hres => exact bindingStep_update (by rw [hres]; exact .open_ _ _) fid
  | tclunk hres => exact bindingStep_update (bindingStep_unbind _) fid
  | tremove hres => exact bindingStep_update (bindingStep_unbind _) fid
  | _ => exact .same _

theorem afterError_bindingStep (table : FidTable P O) (req : TMessage) (fid : UInt32) :
    BindingStep (table fid) (afterError table req fid) := by
  cases req with
  | tremove m => exact bindingStep_update (bindingStep_unbind _) fid
  | _ => exact .same _

theorem binding_step (h : s.step handler a = some s') (fid : UInt32) :
    BindingStep (s.mgr.resources fid) (s'.mgr.resources fid) := by
  have htable := table_step h
  generalize s'.mgr = mgr at htable ⊢
  cases htable with
  | same => exact .same _
  | reset => exact bindingStep_unbind _
  | served hfut hhdl hserved => exact hserved.changes.bindingStep fid
  | failed hfut hhdl hfailed =>
    rw [hfailed.resources]
    exact afterError_bindingStep _ _ fid

theorem Changes.nofid (h : Changes table req table') (hnofid : table nofid = none) :
    table' nofid = none := by
  have hother {fid : UInt32} (hfid : fid ≠ Server.nofid) (binding : Option (Resource P O)) :
      Function.update table fid binding Server.nofid = none := by
    rwa [Function.update_of_ne hfid.symm]
  have hbound {fid : UInt32} {resource : Resource P O} (hres : table fid = some resource) :
      fid ≠ Server.nofid := by
    intro heq
    subst heq
    rw [hnofid] at hres
    cases hres
  cases h with
  | tauth res hfid hfree => exact hother hfid _
  | tattach res hfid hfree => exact hother hfid _
  | twalk new hfid hfree => exact hother hfid _
  | topen new hres => exact hother (hbound hres) _
  | tcreate new hres => exact hother (hbound hres) _
  | tclunk hres => exact hother (hbound hres) _
  | tremove hres => exact hother (hbound hres) _
  | _ => exact hnofid

theorem afterError_nofid (h : table nofid = none) (req : TMessage) :
    afterError table req nofid = none := by
  cases req with
  | tremove m =>
    by_cases hfid : nofid = m.fid
    · rw [afterError, hfid, Function.update_self]
    · rw [afterError, Function.update_of_ne hfid, h]
  | _ => exact h

theorem nofid_step (hnofid : s.mgr.resources nofid = none) (h : s.step handler a = some s') :
    s'.mgr.resources nofid = none := by
  have htable := table_step h
  generalize s'.mgr = mgr at htable ⊢
  cases htable with
  | same => exact hnofid
  | reset => rfl
  | served hfut hhdl hserved => exact hserved.changes.nofid hnofid
  | failed hfut hhdl hfailed =>
    rw [hfailed.resources]
    exact afterError_nofid hnofid _

theorem reaches_nofid {world : W} (h : Reaches (Session.step handler) (.start world) s) :
    s.mgr.resources nofid = none := by
  let I : Session W P O → Prop := fun s => s.mgr.resources nofid = none
  have hstart : I (.start world) := rfl
  exact h.invariant hstart fun hI _ hstep => nofid_step hI hstep

/-- A binding as it may stand while it lasts: unchanged, or opened once. -/
inductive Lasting (resource : Resource P O) : Resource P O → Prop
  | same : Lasting resource resource
  | opened {res : P} (new : O) (hpath : resource = .path res) : Lasting resource (.open_ new)

theorem BindingStep.lasting {resource now next : Resource P O} (h : Lasting resource now)
    (hstep : BindingStep (some now) (some next)) : Lasting resource next := by
  cases hstep with
  | same => exact h
  | open_ res new =>
    cases h
    exact .opened new rfl

/-- While a fid stays bound it stays bound to what it was, or to what that was
opened as. -/
theorem lasting_run {fid : UInt32} {resource resource' : Resource P O}
    (hstart : s.mgr.resources fid = some resource) (hend : s'.mgr.resources fid = some resource')
    (h : Steps (Session.step handler) (fun s _ => s.mgr.resources fid ≠ none) s s') :
    Lasting resource resource' := by
  let I : Session W P O → Prop := fun s => ∀ now, s.mgr.resources fid = some now → Lasting resource now
  have hI : I s := by
    intro now hnow
    cases hstart.symm.trans hnow
    exact .same
  refine h.invariant (I := I) hI (fun {t a t'} hI hbound hstep next hnext => ?_) resource' hend
  obtain ⟨now, hnow⟩ := Option.ne_none_iff_exists'.mp hbound
  have hbinding := binding_step hstep fid
  rw [hnow, hnext] at hbinding
  exact hbinding.lasting (hI now hnow)

end Bindings

end NineWire.Server

namespace NineWire.Res
open NineWire.Wire NineWire.Server NineWire.Stateful NineWire.Transition

/-- A walk that returns a resource has walked every name, and one that does
not has left a name out. -/
theorem walkFrom_length (wqid : List Qid) (wname : List ByteString) (path : PathResource) :
    Keeps (fun _ => True) (PathResource.walkFrom wqid wname path) fun walked =>
      match walked.2 with
      | some _ => walked.1.length = wqid.length + (wname.length - 1)
      | none => walked.1.length < wqid.length + wname.length := by
  induction wname generalizing wqid path with
  | nil => exact Keeps.pure rfl
  | cons component wname ih =>
    refine (Keeps.trivial _).bind fun walked _ => ?_
    cases walked with
    | none => exact Keeps.pure (by simp)
    | some new =>
      refine (ih _ new).weaken ?_
      rintro ⟨out, last⟩ hout
      cases wname <;> cases last <;> simp_all <;> omega

theorem walk_length {self : PathResource} {wname : List ByteString} {wqid : List Qid}
    {new : Option PathResource} {world world' : World}
    (h : (self.walk wname).run world = .ok (wqid, new) world') :
    match new with
    | some _ => wqid.length = wname.length - 1
    | none => wqid.length < wname.length := by
  have hlength := ((walkFrom_length [] wname self world trivial).1 _ _ h).2
  cases new <;> simpa using hlength

/-- The law of the fid table, for every server; and for this one, that a walk
binds its new fid exactly when it answers with a qid for every name. -/
theorem fid_table_law {W P O : Type} (handler : Serve W P O) (maxlen : Nat) (config : Config) :
    (∀ mgr req e mgr', (dispatch handler maxlen req).run mgr = .error e mgr' →
      mgr'.resources = afterError mgr.resources req) ∧
    (∀ mgr req resp mgr', (dispatch handler maxlen req).run mgr = .ok resp mgr' →
      Changes mgr.resources req mgr'.resources) ∧
    (∀ mgr fid newfid wname wqid mgr',
      (dispatch (Res.handler config) maxlen (.twalk ⟨fid, newfid, wname⟩)).run mgr =
        .ok (.rwalk ⟨wqid⟩) mgr' →
      (wqid.length = wname.length ∧
          ∃ new, mgr'.resources = Function.update mgr.resources newfid (some (.path new))) ∨
        (wqid.length < wname.length ∧ mgr'.resources = mgr.resources)) ∧
    (∀ world s, Reaches (Server.Session.step handler) (.start world) s →
      s.mgr.resources nofid = none) ∧
    (∀ (s : Server.Session W P O) a s' fid, s.step handler a = some s' →
      BindingStep (s.mgr.resources fid) (s'.mgr.resources fid)) ∧
    (∀ s s' fid resource resource',
      Steps (Server.Session.step handler) (fun s _ => s.mgr.resources fid ≠ none) s s' →
      s.mgr.resources fid = some resource → s'.mgr.resources fid = some resource' →
      Lasting resource resource') := by
  refine ⟨?_, ?_, ?_, ?_, ?_, ?_⟩
  · exact fun mgr req e mgr' hrun => (dispatch_error hrun).resources
  · exact fun mgr req resp mgr' hrun => (dispatch_ok hrun).changes
  · intro mgr fid newfid wname wqid mgr' hrun
    generalize hresp : RMessage.rwalk ⟨wqid⟩ = resp at hrun
    cases dispatch_ok hrun with
    | twalkFull hfid hfree hres hcall =>
      cases hresp
      have hlength := walk_length hcall
      refine .inl ⟨?_, _, rfl⟩
      cases wname <;> simp_all
    | twalkPart hfid hfree hres hcall =>
      cases hresp
      exact .inr ⟨walk_length hcall, rfl⟩
  · exact fun world s hreach => reaches_nofid hreach
  · exact fun s a s' fid hstep => binding_step hstep fid
  · exact fun s s' fid resource resource' hrun hstart hend => lasting_run hstart hend hrun

end NineWire.Res

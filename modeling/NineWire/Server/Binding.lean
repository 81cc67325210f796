import NineWire.Server.Resources

/-! Which requests bind a fid that is not bound: those that name it as the new
one. -/
namespace NineWire.Server
open NineWire.Wire

def Binds (fid : UInt32) : TMessage → Prop
  | .tauth m => m.afid = fid
  | .tattach m => m.fid = fid
  | .twalk m => m.newfid = fid
  | _ => False

section Binding
variable {W P O : Type} {handler : Serve W P O} {mgr mgr' : ResourceManager W P O} {maxlen : Nat}
  {req : TMessage} {resp : RMessage} {e : Abort} {fid fid' : UInt32}

theorem bound_ne {resource : Resource P O} {world : W} (hne : fid ≠ fid') :
    (mgr.bound fid' resource world).resources fid = mgr.resources fid :=
  Function.update_of_ne hne _ _

theorem unbound_none {world : W} (h : mgr.resources fid = none) :
    (mgr.unbound fid' world).resources fid = none := by
  by_cases hfid : fid = fid'
  · rw [hfid]
    exact Function.update_self _ _ _
  · exact (Function.update_of_ne hfid _ _).trans h

theorem ne_of_bound {resource : Resource P O} (h : mgr.resources fid = none)
    (hres : mgr.resources fid' = some resource) : fid ≠ fid' := by
  intro heq
  subst heq
  cases h.symm.trans hres

theorem Served.unbound (h : mgr.resources fid = none) (hbinds : ¬Binds fid req)
    (hserved : Served handler maxlen mgr req resp mgr') : mgr'.resources fid = none := by
  cases hserved with
  | tauth => rw [bound_ne (Ne.symm hbinds), h]
  | tattach => rw [bound_ne (Ne.symm hbinds), h]
  | twalkFull => rw [bound_ne (Ne.symm hbinds), h]
  | topen hres => rw [bound_ne (ne_of_bound h hres), h]
  | tcreate hres => rw [bound_ne (ne_of_bound h hres), h]
  | tclunk => exact unbound_none h
  | tremove => exact unbound_none h
  | _ => exact h

theorem Failed.unbound (h : mgr.resources fid = none) (hfailed : Failed handler mgr req e mgr') :
    mgr'.resources fid = none := by
  cases hfailed with
  | unimplemented => exact h
  | refused => exact h
  | call =>
    cases req with
    | tremove m => exact unbound_none h
    | _ => exact h

/-- Only a dispatch of a request that names the fid as new binds it. -/
theorem TableStep.unbound {s : Session W P O} {a : Action} (h : s.mgr.resources fid = none)
    (hstep : TableStep handler s a mgr)
    (hbinds : ∀ i fut req, a = .complete i → s.inflight[i]? = some fut → fut.hdl = .dispatch req →
      ¬Binds fid req) :
    mgr.resources fid = none := by
  cases hstep with
  | same => exact h
  | reset => rfl
  | served hfut hhdl hserved => exact hserved.unbound h (hbinds _ _ _ rfl hfut hhdl)
  | failed hfut hhdl hfailed => exact hfailed.unbound h

theorem tclunk_unbound {hdl : Hdl} (hhdl : hdl = .dispatch (.tclunk ⟨fid⟩))
    (h : Completes handler mgr hdl resp mgr') : mgr'.resources fid = none := by
  cases h with
  | ready => cases hhdl
  | served hrun =>
    obtain rfl := Hdl.dispatch.inj hhdl
    cases dispatch_ok hrun with
    | tclunk hres => exact Function.update_self _ _ _
  | failed hrun =>
    obtain rfl := Hdl.dispatch.inj hhdl
    obtain ⟨-, rfl, hnone⟩ | ⟨resource, -, hremoved⟩ := getFid_bind_error.mp hrun
    · exact hnone
    · cases hremoved

end Binding

end NineWire.Server

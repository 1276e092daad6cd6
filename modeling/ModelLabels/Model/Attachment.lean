import ModelLabels.Model.Edit
/-! # Detaching and attaching connections

A connection can be detached from its ends.  It stays on its view, remembers its ends, and goes on to
stand for its relationship.  Since nothing that is looked up by identifier or by concept changes, the
version number stays as it is.
-/

namespace ModelLabels.Edit
set_option autoImplicit false

/-- Detach a connection from its ends. -/
def disconnect (k : Key) : Edit Unit := do
  let (_, c) ← check (·.requireConnection k)
  if c.isConnected then
    modify (Model.unlinkFrom .source k)
    modify (Model.unlinkFrom .target k)
    update k fun o => { o with body := o.body.withConnected false }
  else
    return ()

/-- Attach a connection to its ends again; it comes last among the connections of both. -/
def reconnect (k : Key) : Edit Unit := do
  let (_, c) ← check (·.requireConnection k)
  if c.isConnected then
    return ()
  else
    let _ ← check (·.requireComponent c.source)
    let _ ← check (·.requireComponent c.target)
    link .source k c.source
    link .target k c.target
    update k fun o => { o with body := o.body.withConnected true }

end ModelLabels.Edit

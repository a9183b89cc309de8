import Libanet.Net.TcpConnection

/-!
# `TcpConnection::forceCloseWithDelay` and `base/WeakCallback.h`

A delayed close stops the connection from sending at once, and leaves the rest
to a timer. The timer outlives whatever it is about, so its callback does not
own the connection: it holds a `weak_ptr`, and does nothing if there is nobody
left who owns it.
-/

namespace Libanet.Net

/-- `WeakCallback::operator()`: `none` is an object that cannot be locked. -/
def weakCallback {α : Type} (function : α → Except Fault α) :
    Option α → Except Fault (Option α)
  | none => .ok none
  | some object => do
      let object ← function object
      return some object

namespace TcpConnection

/-- `forceCloseWithDelay`, and whether it has called `loop_->runAfter`. -/
def forceCloseWithDelay (c : TcpConnection) : TcpConnection × Bool :=
  if c.state = .kConnected ∨ c.state = .kDisconnecting then (c.setState .kDisconnecting, true)
  else (c, false)

end TcpConnection

end Libanet.Net

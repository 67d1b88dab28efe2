import ToDoList.Sessions

/-!
# What HomeView shows of a session

`SessionStore` is told of the account by listeners, one notification each.
Once all are delivered it holds the current user, and a `HomeView` rebuilt then
shows that user until the account changes.
-/

namespace ToDoList

open Async

namespace App

/-- The last notification still to come is the current user's, and so is the
session where none is to come. -/
def Told (s : App) : Prop := s.stateListeners ≠ 0 → s.pending.getLast?.getD s.session = s.currentUser

section
variable {s s' : App} {e : AppEvent} {user : Option Uid}

/-! ## Notifications -/

end

end App

end ToDoList

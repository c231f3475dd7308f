import Webserver.Routing.Dispatcher
import Webserver.Storage.Steps

namespace Webserver
namespace Routing

open Handlers Http Programs Storage

/-!
# Requests that change nothing

Which requests can change what is stored, by the handler that they reach.  The CRUD
handler changes files on `POST`, `PUT` and `DELETE`.  The Markdown handler changes them on
two of its `POST` actions and on one `GET`: `create` writes an empty post.
-/

/-- The request can make the handler change what is stored. -/
def RequestHandler.MayChange (handler : RequestHandler) (req : Request) : Prop :=
  match handler with
  | .crud _ =>
      cString req.method.methodString ∈ ["POST".toList, "PUT".toList, "DELETE".toList]
  | .markdown _ =>
      (req.method.methodString = "GET".toList ∧
        MarkdownRequestHandler.action req.target = .ok "create".toList) ∨
      (req.method.methodString = "POST".toList ∧
        (MarkdownRequestHandler.action req.target = .ok "save".toList ∨
          MarkdownRequestHandler.action req.target = .ok "delete".toList))
  | _ => False

instance (req : Request) : (handler : RequestHandler) -> Decidable (handler.MayChange req)
  | .crud _ => inferInstanceAs (Decidable (_ ∈ _))
  | .markdown _ => inferInstanceAs (Decidable (_ ∧ _ ∨ _ ∧ _))
  | .echo | .error | .health | .sleep _ _ | .static _ => inferInstanceAs (Decidable False)

/-- The calls that leave the storage as it is. -/
def Reads : FsCall -> Prop
  | .openInput _ => True
  | .readFile _ => True
  | .listFiles _ => True
  | _ => False

/-- The steps that leave the storage as it is. -/
def ReadingStep : FsStep -> Prop
  | .openInput _ => True
  | .readFile _ => True
  | .listFiles _ => True
  | _ => False

theorem exec_of_readingStep {step : FsStep} (reads : ReadingStep step) (environment : Environment)
    (disk : Disk) : (step.exec environment disk).2 = disk := by
  cases step with
  | openInput path => rfl
  | readFile path => rfl
  | listFiles path => rfl
  | makeWay directory => cases reads
  | store path data => cases reads
  | openOutput path => cases reads
  | remove path => cases reads

theorem steps_of_reads {call : FsCall} (reads : Reads call) : call.steps.CallsOnly ReadingStep := by
  cases call with
  | openInput path => exact ⟨trivial, fun _ => trivial⟩
  | readFile path => exact ⟨trivial, fun _ => trivial⟩
  | listFiles path => exact ⟨trivial, fun _ => trivial⟩
  | writeFile path data => cases reads
  | deleteFile path => cases reads

/-- A computation that only reads. -/
abbrev OnlyReads {A : Type} (handling : Handling A) : Prop := handling.CallsOnly Reads

open Program.CallsOnly (ofExcept_bind perform_bind)

theorem reads_ite {A : Type} {condition : Prop} [Decidable condition] {first second : Handling A}
    (yes : OnlyReads first) (no : OnlyReads second) : OnlyReads (if condition then first else second) :=
  Program.CallsOnly.ite yes no

theorem reads_pure {A : Type} (value : A) : OnlyReads (pure value : Handling A) := trivial

namespace CrudRequestHandler

variable (handler : CrudRequestHandler) (req : Request) (res : Response)

theorem retrieve_reads (entityId : Text) : OnlyReads (handler.retrieve entityId req res) := by
  refine ofExcept_bind (fun filePath mapped => ?_)
  refine perform_bind (trivial : Reads (.readFile filePath)) (fun content => ?_)
  exact reads_ite (reads_pure _) (reads_pure _)

theorem list_reads (entity : Text) : OnlyReads (handler.list entity req res) := by
  refine ofExcept_bind (fun filePath mapped => ?_)
  exact perform_bind (trivial : Reads (.listFiles filePath)) (fun listing => reads_pure _)

theorem serve_reads (junk : Nat -> CInt)
    (safe : cString req.method.methodString ∉ ["POST".toList, "PUT".toList, "DELETE".toList]) :
    OnlyReads (handler.serve junk req res) := by
  simp only [List.mem_cons, List.not_mem_nil, or_false, not_or] at safe
  rcases safe with ⟨notPost, notPut, notDelete⟩
  refine ofExcept_bind (fun parts _ => ?_)
  rcases parts with ⟨entityId, entity, id⟩
  dsimp only
  rw [if_neg notPost]
  refine reads_ite (reads_ite (retrieve_reads handler req res entityId)
    (list_reads handler req res entity)) ?_
  rw [if_neg notPut, if_neg notDelete]
  exact reads_pure _

end CrudRequestHandler

namespace MarkdownRequestHandler

open Handlers.MarkdownRequestHandler (action)

variable (handler : MarkdownRequestHandler) (req : Request) (res : Response)

theorem list_reads : OnlyReads (handler.list req res) := by
  refine ofExcept_bind (fun filePath joined => ?_)
  exact perform_bind (trivial : Reads (.listFiles filePath)) (fun listing => reads_pure _)

theorem view_reads (convert : Text -> Except Fault Text) : OnlyReads (handler.view convert req res) := by
  apply reads_ite (reads_pure _)
  refine ofExcept_bind (fun filePath joined => ?_)
  refine perform_bind (trivial : Reads (.readFile filePath)) (fun content => ?_)
  refine reads_ite ?_ (reads_pure _)
  with_reducible refine ofExcept_bind (fun filledButton _ => ?_)
  exact ofExcept_bind (fun page _ => reads_pure _)

theorem edit_reads : OnlyReads (handler.edit req res) := by
  refine ofExcept_bind (fun filePath joined => ?_)
  refine perform_bind (trivial : Reads (.readFile filePath)) (fun content => ?_)
  refine reads_ite ?_ (reads_pure _)
  dsimp only
  with_reducible refine ofExcept_bind ?_
  intro body filled
  exact reads_pure _

theorem serve_reads (convert : Text -> Except Fault Text) (junk : Nat -> CInt)
    (safe : ¬ (RequestHandler.markdown handler).MayChange req) :
    OnlyReads (handler.serve convert junk req res) := by
  rcases not_or.mp safe with ⟨noCreate, noPost⟩
  refine ofExcept_bind (fun name named => ?_)
  by_cases get : req.method.methodString = "GET".toList
  · have kept : name ≠ "create".toList := fun same => noCreate ⟨get, same ▸ named⟩
    rw [if_pos get]
    apply reads_ite (list_reads handler req res)
    apply reads_ite (view_reads handler req res convert)
    apply reads_ite (ofExcept_bind (fun page _ => reads_pure _))
    rw [if_neg kept]
    exact reads_pure _
  · rw [if_neg get]
    by_cases post : req.method.methodString = "POST".toList
    · have unsaved : name ≠ "save".toList := fun same => noPost ⟨post, Or.inl (same ▸ named)⟩
      have kept : name ≠ "delete".toList := fun same => noPost ⟨post, Or.inr (same ▸ named)⟩
      rw [if_pos post]
      apply reads_ite (edit_reads handler req res)
      rw [if_neg unsaved, if_neg kept]
      exact reads_pure _
    · rw [if_neg post]
      exact reads_pure _

end MarkdownRequestHandler

/-- A request that cannot change anything makes its handler read only. -/
theorem handleRequest_reads {handler : RequestHandler} {req : Request} (safe : ¬ handler.MayChange req)
    (convert : Text -> Except Fault Text) (junk : Nat -> CInt) (res : Response) :
    OnlyReads (handler.handleRequest convert junk req res) := by
  cases handler with
  | echo => exact reads_pure _
  | error => exact reads_pure _
  | health => exact reads_pure _
  | sleep root fileName => exact reads_pure _
  | static handler =>
      refine perform_bind (trivial : Reads (.openInput (handler.baseDir ++ handler.fileName)))
        (fun opened => ?_)
      exact reads_ite (reads_pure _) (reads_pure _)
  | crud handler => exact CrudRequestHandler.serve_reads handler req res junk safe
  | markdown handler => exact MarkdownRequestHandler.serve_reads handler req res convert junk safe

end Routing
end Webserver

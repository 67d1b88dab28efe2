import ToDoList.Async.System
import ToDoList.Async.Latest
import ToDoList.Async.Chain
import ToDoList.Async.Pool
import ToDoList.Async.Twin
import ToDoList.Async.Gate
import ToDoList.Async.Versions
import ToDoList.Async.Log
import ToDoList.Async.Replay
import ToDoList.Async.Delivery
import ToDoList.Dict
import ToDoList.Nested
import ToDoList.Ordered
import ToDoList.Path
import ToDoList.Firebase
import ToDoList.Firestore.Paths
import ToDoList.Firestore.UserData
import ToDoList.Firestore.Mutation
import ToDoList.Firestore.MutationBatch
import ToDoList.Firestore.MutationQueue
import ToDoList.Firestore.MemoryMutationQueue
import ToDoList.Firestore.LocalStore
import ToDoList.Firestore.WriteStream
import ToDoList.Firestore.FirestoreClient
import ToDoList.Firestore.WritePipeline
import ToDoList.Firestore.ClientSteps
import ToDoList.Firestore.Session
import ToDoList.Firestore.Writes
import ToDoList.User
import ToDoList.Services
import ToDoList.UserViewModel
import ToDoList.Operation
import ToDoList.Accounts
import ToDoList.Reports
import ToDoList.Passwords
import ToDoList.EmailAgreement
import ToDoList.ImageAgreement
import ToDoList.Registration
import ToDoList.History
import ToDoList.AccountIsolation
import ToDoList.DocumentIdentity
import ToDoList.Views
import ToDoList.Form
import ToDoList.Completions
import ToDoList.Unwraps
import ToDoList.Sessions
import ToDoList.HomeSession
import ToDoList.ProfileForms
import ToDoList.RecordUpdates
import ToDoList.Normalised

import Binder.BinderDebug
import Binder.BpBinder.Obituaries
import Binder.BpBinder.Tracking
import Binder.BufferedTextOutput
import Binder.IPCThreadState.Identity
import Binder.MemoryDealer.BestFit
import Binder.MemoryDealer.Dealer
import Binder.MemoryHeap.Cache
import Binder.Ndk.DeathRecipient
import Binder.Ndk.Wrapper
import Binder.Parcel.Accounting
import Binder.Parcel.BundleCost
import Binder.Parcel.BundleRoundTrip
import Binder.Parcel.Dangling
import Binder.Parcel.Leak
import Binder.Parcel.NativeStatus
import Binder.Parcel.ObjectSearch
import Binder.Parcel.OutVector
import Binder.Parcel.ReadSafety
import Binder.Parcel.Release
import Binder.PermissionCache
import Binder.ProcessState.Proxies
import Binder.Rpc.Abort
import Binder.Rpc.Addresses
import Binder.Rpc.Commands
import Binder.Rpc.Vanish
import Binder.RpcServer.Safety
import Binder.RpcSession.Exclusive
import Binder.RpcSession.Preconnected
import Binder.RpcSession.Version
import Binder.RpcTransport.Raw
import Binder.Rust.SizedParcelable
import Binder.Rust.SubParcel
import Binder.ServiceManager.Guarantee
import Binder.ServiceManager.Isolation
import Binder.ServiceManager.LazyAgreement
import Binder.ServiceManager.Shim
import Binder.UtilsHost
